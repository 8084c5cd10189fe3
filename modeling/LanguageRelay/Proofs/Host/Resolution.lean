import Mathlib.Data.List.TakeWhile
import LanguageRelay.Proofs.Host.Arrival
import LanguageRelay.Proofs.Path.Lexical
namespace LanguageRelay.Host
open LanguageRelay.Path
variable {fs : FileSystem} {path : String}

def FileSystem.NoLinks (fs : FileSystem) : Prop := ∀ place target, fs.at? place ≠ some (.link target)

namespace FileSystem

def Target.place : Target → Place
  | .present place _ => place
  | .absent place => place

-- What a target says is so: there is the entry, or there is none and the place is not the root.
def Target.Holds (fs : FileSystem) : Target → Prop
  | .present place entry => fs.at? place = some entry
  | .absent place => fs.at? place = none

theorem Arrives.holds {follow : Bool} {links : Nat} {here : Place} {parts : List String}
    {target : Target} (arrives : Arrives fs follow links here parts target) : target.Holds fs := by
  induction arrives with
  | done there => exact there
  | stay _ _ _ ih | up _ _ _ ih | through _ _ _ _ _ _ ih | down _ _ _ _ _ ih => exact ih
  | free _ _ free => exact free
  | stop _ _ led _ => exact led

theorem walk_ok (plain : fs.NoLinks) {follows : Bool} {links : Nat} {here : Place}
    {parts : List String} {target : Target} (led : fs.walk follows links here parts = .ok target) :
    target.Holds fs ∧ target.place = follow here (parts.filterMap component?) := by
  have arrives := arrives_of_walk led
  refine ⟨arrives.holds, ?_⟩
  clear led
  induction arrives with
  | done => rfl
  | stay _ blank _ ih => rw [List.filterMap_cons, blank, ih]
  | up _ dots _ ih =>
    rw [List.filterMap_cons, dots, ih]
    rfl
  | free _ named _ =>
    rw [List.filterMap_cons, named.part]
    rfl
  | stop _ _ link _ => exact absurd link (plain _ _)
  | through _ _ link _ _ _ _ => exact absurd link (plain _ _)
  | down _ named _ _ _ ih =>
    rw [List.filterMap_cons, named.part, ih]
    rfl

theorem resolve_ok (plain : fs.NoLinks) {follows : Bool} (absolute : isAbsolute path)
    {target : Target} (led : fs.resolve follows path = .ok target) :
    target.Holds fs ∧ target.place = resolved path := by
  rw [resolve] at led
  split at led
  · cases led
  · split at led
    · cases led
    · rw [origin, if_pos absolute] at led
      have whole : resolved path = follow [] ((segments path).filterMap component?) := by
        rw [resolved, components_of_isAbsolute absolute]
        rfl
      rw [whole]
      exact walk_ok plain led

theorem components_append_slashes {front slashes : List Char} (absolute : isAbsolute (String.ofList front))
    (only : ∀ c ∈ slashes, c = '/') :
    components (String.ofList (front ++ slashes)) = components (String.ofList front) := by
  induction slashes using List.reverseRecOn with
  | nil => rw [List.append_nil]
  | append_singleton slashes last ih =>
    obtain rfl := only last (by simp)
    have longer : isAbsolute (String.ofList (front ++ slashes)) := by
      rw [String.ofList_append]
      exact isAbsolute_append absolute _
    rw [← List.append_assoc, String.ofList_append]
    exact (components_append_separator longer).trans
      (ih fun c member => only c (List.mem_append_left _ member))

theorem isAbsolute_ofList {chars : List Char} (starts : chars.head? = some '/') :
    isAbsolute (String.ofList chars) := by
  rw [isAbsolute, String.toList_ofList, starts]
  rfl

theorem components_withoutEnd (absolute : isAbsolute path) :
    isAbsolute (withoutEnd path) ∧ components (withoutEnd path) = components path := by
  have starts : path.toList.head? = some '/' := by simpa [isAbsolute] using absolute
  have parted := congrArg List.reverse (List.takeWhile_append_dropWhile
    (p := (· == '/')) (l := path.toList.reverse))
  rw [List.reverse_append, List.reverse_reverse] at parted
  have only : ∀ c ∈ (path.toList.reverse.takeWhile (· == '/')).reverse, c = '/' := by
    intro c member
    simpa using List.mem_takeWhile_imp (List.mem_reverse.1 member)
  rw [withoutEnd]
  split
  · rename_i none
    rw [none, List.reverse_nil, List.nil_append] at parted
    rw [parted] at only
    obtain ⟨rest, whole⟩ := List.head?_eq_some_iff.1 starts
    have root : isAbsolute (String.ofList ['/']) := isAbsolute_ofList rfl
    have same : components (String.ofList (['/'] ++ rest)) = components (String.ofList ['/']) :=
      components_append_slashes root fun c member => only c (whole ▸ List.mem_cons_of_mem _ member)
    rw [whole]
    refine ⟨root, Eq.trans same.symm (congrArg components ?_)⟩
    rw [← String.ofList_toList (s := path), whole]
    rfl
  · rename_i kept present
    have front : (path.toList.reverse.dropWhile (· == '/')).reverse.head? = some '/' := by
      rw [← parted, List.head?_append_of_ne_nil] at starts
      · exact starts
      · exact fun none => present (List.reverse_eq_nil_iff.1 none)
    have absolute := isAbsolute_ofList front
    refine ⟨absolute, Eq.trans (components_append_slashes absolute only).symm (congrArg components ?_)⟩
    rw [parted, String.ofList_toList]

theorem lookup_filter (keep : Place → Bool) (place : Place) (entries : List (Place × Entry)) :
    (entries.filter fun e => keep e.1).lookup place = if keep place then entries.lookup place else none := by
  induction entries with
  | nil => simp
  | cons first entries ih =>
    obtain ⟨there, entry⟩ := first
    by_cases same : place = there
    · subst same
      by_cases kept : keep place
      · simp [kept]
      · simp [kept, ih]
    · have apart : (place == there) = false := beq_eq_false_iff_ne.2 same
      by_cases kept : keep there
      · simp [kept, List.lookup_cons, apart, ih]
      · simp [kept, List.lookup_cons, apart, ih]

end FileSystem
end LanguageRelay.Host
