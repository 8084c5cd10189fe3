import Mathlib.Logic.Basic
import LanguageRelay.Host.FileSystem
namespace LanguageRelay.Host
open LanguageRelay.Path
namespace FileSystem

structure Named (name : String) : Prop where
  part : component? name = some (.normal name)
  short : ¬ nameLimit < Path.byteLength name

-- Parts lead from a directory to a target, so many links away at most.
inductive Arrives (fs : FileSystem) (follow : Bool) : Nat → Place → List String → Target → Prop
  | done {links here entry} : fs.at? here = some entry →
      Arrives fs follow links here [] (.present here entry)
  | stay {links here segment parts target} : fs.at? here = some .directory →
      component? segment = none → Arrives fs follow links here parts target →
      Arrives fs follow links here (segment :: parts) target
  | up {links here segment parts target} : fs.at? here = some .directory →
      component? segment = some .parent → Arrives fs follow links here.dropLast parts target →
      Arrives fs follow links here (segment :: parts) target
  | free {links here name} : fs.at? here = some .directory → Named name →
      fs.at? (here ++ [name]) = none →
      Arrives fs follow links here [name] (.absent (here ++ [name]))
  | stop {links here name goal} : fs.at? here = some .directory → Named name →
      fs.at? (here ++ [name]) = some (.link goal) → follow = false →
      Arrives fs follow links here [name] (.present (here ++ [name]) (.link goal))
  | through {links here name goal parts target} : fs.at? here = some .directory → Named name →
      fs.at? (here ++ [name]) = some (.link goal) → goal ≠ "" → follow = true ∨ parts ≠ [] →
      Arrives fs follow links (origin goal here) (segments goal ++ parts) target →
      Arrives fs follow (links + 1) here (name :: parts) target
  | down {links here name entry parts target} : fs.at? here = some .directory → Named name →
      fs.at? (here ++ [name]) = some entry → (∀ goal, entry ≠ .link goal) →
      Arrives fs follow links (here ++ [name]) parts target →
      Arrives fs follow links here (name :: parts) target

variable {fs : FileSystem} {follow : Bool} {links : Nat} {here : Place} {segment name goal : String}
  {parts : List String} {entry : Entry} {target : Target}

theorem component?_eq_none : component? segment = none ↔ segment = "" ∨ segment = "." := by
  rw [component?]
  split
  · simpa
  · split <;> simpa using ‹¬ (segment = "" ∨ segment = ".")›

theorem component?_eq_parent : component? segment = some .parent ↔ segment = ".." := by
  rw [component?]
  split
  · rename_i blank
    constructor
    · nofun
    · rintro rfl
      exact absurd blank (by decide)
  · split <;> simpa

theorem component?_eq_normal :
    component? segment = some (.normal name) ↔
      segment = name ∧ ¬ (segment = "" ∨ segment = ".") ∧ segment ≠ ".." := by
  rw [component?]
  split
  · rename_i blank
    simp [blank]
  · rename_i ordinary
    split
    · rename_i up
      simp [up]
    · rename_i other
      simp [ordinary, other]

theorem walk_nil (there : fs.at? here = some entry) :
    fs.walk follow links here [] = .ok (.present here entry) := by
  rw [walk, there]

theorem walk_stay (there : fs.at? here = some .directory) (blank : component? segment = none) :
    fs.walk follow links here (segment :: parts) = fs.walk follow links here parts := by
  rw [walk, if_neg (not_not_intro there), if_pos (component?_eq_none.1 blank)]

theorem walk_up (there : fs.at? here = some .directory) (up : component? segment = some .parent) :
    fs.walk follow links here (segment :: parts) = fs.walk follow links here.dropLast parts := by
  have dots := component?_eq_parent.1 up
  subst dots
  rw [walk, if_neg (not_not_intro there), if_neg (by decide), if_pos rfl]

theorem walk_free (there : fs.at? here = some .directory) (named : Named name)
    (free : fs.at? (here ++ [name]) = none) :
    fs.walk follow links here (name :: parts) =
      if parts = [] then .ok (.absent (here ++ [name])) else .error .notFound := by
  obtain ⟨-, ordinary, other⟩ := component?_eq_normal.1 named.part
  rw [walk, if_neg (not_not_intro there), if_neg ordinary, if_neg other, if_neg named.short]
  simp only [free]

theorem walk_stop (there : fs.at? here = some .directory) (named : Named name)
    (led : fs.at? (here ++ [name]) = some (.link goal)) :
    fs.walk false links here [name] = .ok (.present (here ++ [name]) (.link goal)) := by
  obtain ⟨-, ordinary, other⟩ := component?_eq_normal.1 named.part
  rw [walk, if_neg (not_not_intro there), if_neg ordinary, if_neg other, if_neg named.short]
  simp [led]

theorem walk_through (there : fs.at? here = some .directory) (named : Named name)
    (led : fs.at? (here ++ [name]) = some (.link goal)) (leads : goal ≠ "")
    (followed : follow = true ∨ parts ≠ []) :
    fs.walk follow (links + 1) here (name :: parts) =
      fs.walk follow links (origin goal here) (segments goal ++ parts) := by
  obtain ⟨-, ordinary, other⟩ := component?_eq_normal.1 named.part
  have onward : ¬ (parts = [] ∧ !follow) := by
    rintro ⟨last, unfollowed⟩
    rcases followed with rfl | longer
    · cases unfollowed
    · exact longer last
  rw [walk, if_neg (not_not_intro there), if_neg ordinary, if_neg other, if_neg named.short]
  simp only [led, onward, leads, if_false]

theorem walk_down (there : fs.at? here = some .directory) (named : Named name)
    (found : fs.at? (here ++ [name]) = some entry) (noLink : ∀ goal, entry ≠ .link goal) :
    fs.walk follow links here (name :: parts) = fs.walk follow links (here ++ [name]) parts := by
  obtain ⟨-, ordinary, other⟩ := component?_eq_normal.1 named.part
  have onward : (if parts = [] then .ok (.present (here ++ [name]) entry)
      else fs.walk follow links (here ++ [name]) parts) =
      fs.walk follow links (here ++ [name]) parts := by
    split
    · rename_i last
      rw [last, walk_nil found]
    · rfl
  rw [walk, if_neg (not_not_intro there), if_neg ordinary, if_neg other, if_neg named.short]
  cases entry with
  | link goal => exact absurd rfl (noLink goal)
  | file content executable => simpa only [found] using onward
  | directory => simpa only [found] using onward
  | device => simpa only [found] using onward

theorem Arrives.walk (arrives : Arrives fs follow links here parts target) :
    fs.walk follow links here parts = .ok target := by
  induction arrives with
  | done there => exact walk_nil there
  | stay there blank _ ih => rw [walk_stay there blank, ih]
  | up there dots _ ih => rw [walk_up there dots, ih]
  | free there named absent => rw [walk_free there named absent, if_pos rfl]
  | stop there named led unfollowed => rw [unfollowed, walk_stop there named led]
  | through there named led leads followed _ ih => rw [walk_through there named led leads followed, ih]
  | down there named found noLink _ ih => rw [walk_down there named found noLink, ih]

theorem arrives_of_walk (led : fs.walk follow links here parts = .ok target) :
    Arrives fs follow links here parts target := by
  fun_induction FileSystem.walk fs follow links here parts with
  | case1 links here entry there =>
    cases led
    exact .done there
  | case2 | case3 | case6 | case8 | case10 | case11 => cases led
  | case4 links here segment parts there blank ih =>
    exact .stay (not_not.1 there) (component?_eq_none.2 blank) (ih led)
  | case5 links here parts there ordinary ih =>
    exact .up (not_not.1 there) (component?_eq_parent.2 rfl) (ih led)
  | case7 links here name there ordinary other short place free =>
    cases led
    exact .free (not_not.1 there) ⟨component?_eq_normal.2 ⟨rfl, ordinary, other⟩, short⟩ free
  | case9 links here name parts there ordinary other short place goal found last =>
    cases led
    obtain ⟨rfl, unfollowed⟩ := last
    exact .stop (not_not.1 there) ⟨component?_eq_normal.2 ⟨rfl, ordinary, other⟩, short⟩ found
      (by simpa using unfollowed)
  | case12 here name parts there ordinary other short place goal found onward left leads ih =>
    refine .through (not_not.1 there) ⟨component?_eq_normal.2 ⟨rfl, ordinary, other⟩, short⟩ found
      leads ?_ (ih led)
    by_cases last : parts = []
    · exact .inl (by simpa [last] using onward)
    · exact .inr last
  | case13 links here name there ordinary other short place entry noLink found =>
    cases led
    exact .down (not_not.1 there) ⟨component?_eq_normal.2 ⟨rfl, ordinary, other⟩, short⟩ found
      noLink (.done found)
  | case14 links here name parts there ordinary other short place entry noLink found more ih =>
    exact .down (not_not.1 there) ⟨component?_eq_normal.2 ⟨rfl, ordinary, other⟩, short⟩ found
      noLink (ih led)

end FileSystem
end LanguageRelay.Host
