import LanguageRelay.Document.File
import LanguageRelay.Proofs.Host.Emptied
namespace LanguageRelay.Host
open LanguageRelay.Path
namespace FileSystem
variable {before middle after : FileSystem} {place : Place} {root path : String} {names front : List String}
  {name : String} {entry : Entry} {content : Bytes}

-- A tree without links at the place to which a path leads.
structure Tree (fs : FileSystem) (root : String) (place : Place) : Prop where
  absolute : isAbsolute root
  led : fs.resolve true root = .ok (.present place .directory)
  grounded : fs.Grounded
  plain : fs.Plain place

theorem Fresh.tree {fs : FileSystem} (fresh : Fresh fs path place) (absolute : isAbsolute path) :
    Tree fs path place := ⟨absolute, fresh.led, fresh.grounded, fresh.plain absolute⟩

theorem Tree.there {fs : FileSystem} (tree : Tree fs root place) : fs.at? place = some .directory :=
  (arrives_of_resolve tree.absolute tree.led).holds

theorem resolve_grow (grows : Grows before after) (absolute : isAbsolute path)
    (led : before.resolve true path = .ok (.present place entry)) :
    ∃ other, after.resolve true path = .ok (.present place other) ∧ after.at? place = some other := by
  obtain ⟨other, arrives⟩ := (arrives_of_resolve absolute led).grow grows
  exact ⟨other, (resolve_eq_walk absolute (clean_of_resolve led)).trans arrives.walk, arrives.holds⟩

theorem Tree.grow (tree : Tree before root place) (grows : Grows before after)
    (grounded : after.Grounded) (plain : after.Plain place) : Tree after root place := by
  obtain ⟨other, led, there⟩ := resolve_grow grows tree.absolute tree.led
  rw [grows.directory _ tree.there] at there
  cases there
  exact ⟨tree.absolute, led, grounded, plain⟩

-- What is missing on the way to a place in the tree becomes a directory.
structure Paved (before after : FileSystem) (place : Place) (names : List String) : Prop where
  grows : Grows before after
  grounded : after.Grounded
  there : after.at? (place ++ names) = some .directory
  made : ∀ other, other ≠ [] → after.at? (place ++ other) =
    if other <+: names ∧ before.at? (place ++ other) = none then some .directory
    else before.at? (place ++ other)

theorem Paved.plain (paved : Paved before after place names) (plain : before.Plain place) :
    after.Plain place := by
  intro other goal link
  by_cases top : other = []
  · subst top
    rw [List.append_nil] at link
    by_cases named : names = []
    · have there := paved.there
      rw [named, List.append_nil, link] at there
      cases there
    · have there := paved.grounded.above named (by rw [paved.there]; nofun)
      rw [link] at there
      cases there
  · rw [paved.made other top] at link
    split at link
    · cases link
    · exact plain other goal link

theorem Paved.refl (grounded : before.Grounded) (there : before.at? (place ++ names) = some .directory) :
    Paved before before place names := by
  refine ⟨.of_subset fun _ _ there => there, grounded, there, ?_⟩
  intro other present
  rw [if_neg]
  rintro ⟨⟨rest, rfl⟩, missing⟩
  rw [← List.append_assoc, grounded.free missing rest] at there
  cases there

theorem Grows.trans {small large larger : FileSystem} (first : Grows small large)
    (second : Grows large larger) : Grows small larger := by
  refine ⟨?_, ?_, ?_⟩
  · intro place there
    exact second.directory place (first.directory place there)
  · intro place goal there
    exact second.link place goal (first.link place goal there)
  · intro place entry there ordinary
    obtain ⟨other, there, ordinary⟩ := first.plain place entry there ordinary
    exact second.plain place other there ordinary

theorem Paved.trans (first : Paved before middle place front)
    (second : Paved middle after place (front ++ [name])) :
    Paved before after place (front ++ [name]) := by
  refine ⟨first.grows.trans second.grows, second.grounded, second.there, ?_⟩
  intro other present
  rw [second.made other present, first.made other present]
  by_cases upper : other <+: front
  · have longer : other <+: front ++ [name] := upper.trans (List.prefix_append _ _)
    by_cases missing : before.at? (place ++ other) = none
    · simp [upper, longer, missing]
    · simp [missing]
  · simp [upper]

theorem paved_of_createDirectory (tree : Tree before root place) (absolute : isAbsolute path)
    (below : components path = components root ++ names.map .normal) (present : names ≠ [])
    (done : before.createDirectory path = .ok after) : Paved before after place names := by
  obtain ⟨above, name, makes, rfl⟩ := createDirectory_ok absolute done
  have same := (components_withoutEnd absolute).2.trans below
  have itself : above ++ [name] = place ++ names := by
    rcases resolve_below tree.absolute tree.led tree.grounded tree.plain same (.inr present) with
      ⟨entry, found, -⟩ | ⟨-, free | failed⟩ | ⟨e, -, failed⟩
    · rw [makes.free] at found
      cases found
    · rw [makes.free] at free
      exact Target.absent.inj (Except.ok.inj free)
    · rw [makes.free] at failed
      cases failed
    · rw [makes.free] at failed
      cases failed
  have missing := makes.none
  refine ⟨.put (by rw [missing]; nofun) (by rw [missing]; nofun) nofun,
    tree.grounded.put makes.within (by rw [missing]; nofun) _, ?_, ?_⟩
  · rw [at?_put, itself, if_pos rfl, ite_self]
  · intro other nonempty
    rw [at?_put, if_neg (by simpa using fun _ => nonempty), itself]
    by_cases last : other = names
    · rw [itself] at missing
      rw [last, if_pos rfl, if_pos ⟨List.prefix_rfl, missing⟩]
    · rw [if_neg (by simpa using last), if_neg]
      rintro ⟨⟨rest, rfl⟩, free⟩
      rcases List.eq_nil_or_concat rest with rfl | ⟨rest, last, rfl⟩
      · exact last (List.append_nil _).symm
      · rw [List.concat_eq_append, ← List.append_assoc, ← List.append_assoc] at itself
        have within := makes.within
        rw [(List.append_inj' itself rfl).1, tree.grounded.free free rest] at within
        cases within

theorem paved_of_ensureDirectory (tree : Tree before root place) (absolute : isAbsolute path)
    (below : components path = components root ++ names.map .normal) (present : names ≠ [])
    (done : before.ensureDirectory path = (.ok (), after)) : Paved before after place names := by
  rcases ensureDirectory_ok done with created | ⟨rfl, directory⟩
  · exact paved_of_createDirectory tree absolute below present created
  · obtain ⟨other, led⟩ := isDirectory_iff.1 directory
    apply Paved.refl tree.grounded
    rcases resolve_below tree.absolute tree.led tree.grounded tree.plain below (.inl rfl) with
      ⟨entry, found, there⟩ | ⟨-, free | failed⟩ | ⟨e, -, failed⟩
    · rw [led] at found
      cases found
      exact there
    · rw [led] at free
      cases free
    · rw [led] at failed
      cases failed
    · rw [led] at failed
      cases failed

theorem clean_of_createUpTo {fs : FileSystem} {height : Nat} (absolute : isAbsolute path)
    (done : fs.createUpTo height path = (.ok (), after)) : '\x00' ∉ path.toList := by
  intro unclean
  have failed : fs.createDirectory path = .error .nulInPath := by
    rw [createDirectory, resolve_unclean (mem_withoutEnd.2 unclean)]
  have missing : ¬ fs.isDirectory path := by
    rw [isDirectory_iff, resolve_unclean unclean]
    simp
  have refused : fs.ensureDirectory path ≠ (.ok (), after) := by
    rw [ensureDirectory, failed]
    simp [missing]
  cases height with
  | zero =>
    rw [createUpTo, if_neg (ne_empty_of_isAbsolute absolute)] at done
    exact refused done
  | succ height =>
    rw [createUpTo, if_neg (ne_empty_of_isAbsolute absolute), wanted?, failed] at done
    exact refused done

theorem paved_of_same {height : Nat} (tree : Tree before root place) (absolute : isAbsolute path)
    (same : components path = components root)
    (done : before.createUpTo height path = (.ok (), after)) : Paved before after place [] := by
  have led := resolve_same tree.absolute tree.led same (clean_of_createUpTo absolute done)
  rw [createUpTo_of_directory absolute led] at done
  cases done
  apply Paved.refl tree.grounded
  rw [List.append_nil]
  exact tree.there

-- The way is made from the top down, and never above the tree, whose own directory is there.
theorem paved_of_createUpTo {height : Nat} (tree : Tree before root place) (absolute : isAbsolute path)
    (below : components path = components root ++ names.map .normal)
    (done : before.createUpTo height path = (.ok (), after)) : Paved before after place names := by
  induction height generalizing path names after with
  | zero =>
    by_cases top : names = []
    · subst top
      exact paved_of_same tree absolute (below.trans (List.append_nil _)) done
    · rw [createUpTo, if_neg (ne_empty_of_isAbsolute absolute)] at done
      exact paved_of_ensureDirectory tree absolute below top done
  | succ height ih =>
    rcases List.eq_nil_or_concat names with rfl | ⟨front, name, rfl⟩
    · exact paved_of_same tree absolute (below.trans (List.append_nil _)) done
    · rw [List.concat_eq_append] at below ⊢
      have present : front ++ [name] ≠ [] := by simp
      rw [createUpTo, if_neg (ne_empty_of_isAbsolute absolute)] at done
      split at done
      · exact paved_of_ensureDirectory tree absolute below present done
      · rename_i above wanted
        obtain ⟨starts, shorter⟩ := components_parent absolute (parent_of_wanted wanted)
        rw [below, List.map_append, ← List.append_assoc, List.map_singleton,
          List.dropLast_concat] at shorter
        split at done
        · rename_i middle upper
          have first := ih starts shorter upper
          have still := tree.grow first.grows first.grounded (first.plain tree.plain)
          exact first.trans (paved_of_ensureDirectory still absolute below present done)
        · rename_i failed
          exact (failed () after done).elim

theorem read_within {fs : FileSystem} {file : TextFile} (tree : Tree fs root place)
    (below : components path = components root ++ names.map .normal)
    (read : TextFile.read fs path = .ok file) :
    fs.at? (place ++ names) = none ∧ file.text = "" ∨
      (∃ content executable, fs.at? (place ++ names) = some (.file content executable) ∧
        Text.utf8Decode? content = some file.text) ∨
      fs.at? (place ++ names) = some .device := by
  rcases resolve_below tree.absolute tree.led tree.grounded tree.plain below (.inl rfl) with
    ⟨entry, found, there⟩ | ⟨none, absent⟩ | ⟨e, other, failed⟩
  · simp only [TextFile.read, readText, FileSystem.read, entry?, found] at read
    cases entry with
    | link goal => exact absurd there (tree.plain names goal)
    | directory => cases read
    | device => exact .inr (.inr there)
    | file content executable =>
      simp only at read
      cases decoded : Text.utf8Decode? content with
      | none =>
        rw [decoded] at read
        cases read
      | some text =>
        rw [decoded] at read
        cases read
        exact .inr (.inl ⟨content, executable, there, decoded⟩)
  · refine .inl ⟨none, ?_⟩
    rcases absent with free | missing
    · simp only [TextFile.read, readText, FileSystem.read, entry?, free] at read
      cases read
      rfl
    · simp only [TextFile.read, readText, FileSystem.read, entry?, missing] at read
      cases read
      rfl
  · simp only [TextFile.read, readText, FileSystem.read, entry?, failed] at read
    cases e with
    | notFound => exact absurd rfl other
    | _ => cases read

-- A file that is written stands at the place of its path.
structure Written (before after : FileSystem) (path : String) (place : Place) (content : Bytes) : Prop where
  put : ∃ executable, after = before.put place (.file content executable) ∧
    (before.at? place = none ∧ executable = false ∨ ∃ old, before.at? place = some (.file old executable))
  led : ∃ executable, after.resolve true path = .ok (.present place (.file content executable))

theorem Written.free (written : Written before after path place content) :
    before.at? place ≠ some .directory ∧ ∀ goal, before.at? place ≠ some (.link goal) := by
  obtain ⟨executable, -, ⟨none, -⟩ | ⟨old, there⟩⟩ := written.put
  · rw [none]
    exact ⟨nofun, nofun⟩
  · rw [there]
    exact ⟨nofun, nofun⟩

theorem Written.grows (written : Written before after path place content) : Grows before after := by
  obtain ⟨noDirectory, noLink⟩ := written.free
  obtain ⟨executable, rfl, -⟩ := written.put
  exact .put noDirectory noLink nofun

theorem written_within (tree : Tree before root place) (absolute : isAbsolute path)
    (below : components path = components root ++ names.map .normal) (present : names ≠ [])
    (noDevice : before.at? (place ++ names) ≠ some .device)
    (done : before.write path content = .ok after) :
    Written before after path (place ++ names) content := by
  have nonempty : place ++ names ≠ [] := by simp [present]
  have put : ∀ executable, (before.put (place ++ names) (.file content executable)).at? (place ++ names) =
      some (.file content executable) := by
    intro executable
    rw [at?_put, if_neg nonempty, if_pos rfl]
  rw [write] at done
  split at done
  · split at done <;> cases done
  · rcases resolve_below tree.absolute tree.led tree.grounded tree.plain below (.inl rfl) with
      ⟨entry, found, there⟩ | ⟨none, free | missing⟩ | ⟨e, -, failed⟩
    · rw [found] at done
      cases entry with
      | link goal => exact absurd there (tree.plain names goal)
      | device => exact absurd there noDevice
      | directory => cases done
      | file old executable =>
        cases done
        have grows : Grows before (before.put (place ++ names) (.file content executable)) :=
          .put (by rw [there]; simp) (by rw [there]; simp) (by simp)
        obtain ⟨other, led, still⟩ := resolve_grow grows absolute found
        rw [put] at still
        cases still
        exact ⟨⟨executable, rfl, .inr ⟨old, there⟩⟩, executable, led⟩
    · rw [free] at done
      cases done
      have noLink : ∀ goal, Entry.file content false ≠ .link goal := by simp
      obtain ⟨-, arrives⟩ := (arrives_of_resolve absolute free).put noLink
      have led := (resolve_eq_walk absolute (clean_of_resolve free)).trans arrives.walk
      exact ⟨⟨false, rfl, .inl ⟨none, rfl⟩⟩, false, led⟩
    · rw [missing] at done
      cases done
    · rw [failed] at done
      cases done

theorem write_within {file : TextFile} (done : file.write before = (.ok (), after))
    (tree : Tree before root place) (absolute : isAbsolute file.path)
    (below : components file.path = components root ++ (front ++ [name]).map .normal)
    (noDevice : before.at? (place ++ (front ++ [name])) ≠ some .device) :
    ∃ middle, Paved before middle place front ∧
      Written middle after file.path (place ++ (front ++ [name])) (Text.utf8 file.text) := by
  have present : front ++ [name] ≠ [] := by simp
  simp only [TextFile.write] at done
  split at done
  · rename_i none
    rw [parent?, below, List.map_append, ← List.append_assoc, List.map_singleton,
      List.getLast?_concat] at none
    cases none
  · rename_i above parent
    obtain ⟨starts, shorter⟩ := components_parent absolute parent
    rw [below, List.map_append, ← List.append_assoc, List.map_singleton,
      List.dropLast_concat] at shorter
    split at done
    · rename_i middle upper
      have paved := paved_of_createUpTo tree starts shorter upper
      refine ⟨middle, paved, ?_⟩
      have still := tree.grow paved.grows paved.grounded (paved.plain tree.plain)
      have apart : ¬ front ++ [name] <+: front := by
        intro inside
        exact absurd inside.length_le (by simp)
      apply written_within still absolute below present
      · rw [paved.made _ present, if_neg fun made => apart made.1]
        exact noDevice
      · cases written : middle.write file.path (Text.utf8 file.text) with
        | error e =>
          rw [written, attempt] at done
          cases done
        | ok changed =>
          rw [written, attempt] at done
          cases done
          rfl
    · rename_i failed
      exact (failed () after done).elim

end FileSystem
end LanguageRelay.Host
