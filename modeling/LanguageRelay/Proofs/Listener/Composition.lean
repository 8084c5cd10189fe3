import LanguageRelay.Listener.Scripted
namespace LanguageRelay.ChainEntry
open Json
variable {ε : Type}

-- What a listener makes of a value, its filter included. It drops the message,
def Drops (entry : ChainEntry ε) (direction : Direction) (context : ListenerContext) (value : Value) : Prop :=
  entry.filter.admits direction context value ∧
    (entry.listener.react direction context value).verdict = .drop

-- gives another value,
def Replaces (entry : ChainEntry ε) (direction : Direction) (context : ListenerContext)
    (value replacement : Value) : Prop :=
  entry.filter.admits direction context value ∧
    (entry.listener.react direction context value).verdict = .replace replacement

-- or leaves the value as it is: it is not asked, forwards the message, fails or crashes.
def Passes (entry : ChainEntry ε) (direction : Direction) (context : ListenerContext) (value : Value) : Prop :=
  entry.filter.admits direction context value = false ∨
    (entry.listener.react direction context value).verdict = .forward ∨
    (entry.listener.react direction context value).verdict = .failed ∨
    (entry.listener.react direction context value).verdict = .crashed

theorem cases (entry : ChainEntry ε) (direction : Direction) (context : ListenerContext) (value : Value) :
    entry.Drops direction context value ∨ entry.Passes direction context value ∨
      ∃ replacement, entry.Replaces direction context value replacement := by
  cases admits : entry.filter.admits direction context value with
  | false => exact .inr (.inl (.inl admits))
  | true =>
    cases verdict : (entry.listener.react direction context value).verdict with
    | drop => exact .inl ⟨admits, verdict⟩
    | forward => exact .inr (.inl (.inr (.inl verdict)))
    | failed => exact .inr (.inl (.inr (.inr (.inl verdict))))
    | crashed => exact .inr (.inl (.inr (.inr (.inr verdict))))
    | replace replacement => exact .inr (.inr ⟨replacement, admits, verdict⟩)

end LanguageRelay.ChainEntry

namespace LanguageRelay.ListenerChain
open Json
variable {ε : Type} {chain first second : ListenerChain ε} {direction : Direction}
  {context : ListenerContext} {original : Message}

-- The message as it would be sent on now: its own text until a listener has replaced the value.
def Current.message (current : Current) (original : Message) : Message :=
  if current.replaced then .ofValue current.value else original

-- That text reads back as the value that the next listener is asked about.
def Current.ReadsBack (current : Current) (original : Message) : Prop :=
  (current.message original).value? = some current.value

-- Every value that a listener of the chain puts in the place of another survives being printed.
def Legible (chain : ListenerChain ε) : Prop :=
  ∀ entry ∈ chain, ∀ direction context value replacement,
    (entry.listener.react direction context value).verdict = .replace replacement →
      (Message.ofValue replacement).value? = some replacement

theorem ask_of_drops {entry : ChainEntry ε} {value : Value} (drops : entry.Drops direction context value) :
    ∃ effects, ∀ replaced, ask entry direction context ⟨value, replaced⟩ = (none, effects) :=
  ⟨_, fun replaced => by simp only [ask, drops.1, drops.2, if_true]; rfl⟩

theorem ask_of_passes {entry : ChainEntry ε} {value : Value} (passes : entry.Passes direction context value) :
    ∃ effects, ∀ replaced,
      ask entry direction context ⟨value, replaced⟩ = (some ⟨value, replaced⟩, effects) := by
  by_cases admits : entry.filter.admits direction context value
  · rcases passes with excluded | verdict | verdict | verdict
    · rw [admits] at excluded
      cases excluded
    all_goals exact ⟨_, fun replaced => by simp only [ask, admits, verdict, if_true]; rfl⟩
  · exact ⟨_, fun replaced => by simp only [ask, admits]; rfl⟩

theorem ask_of_replaces {entry : ChainEntry ε} {value replacement : Value}
    (replaces : entry.Replaces direction context value replacement) : ∃ effects, ∀ replaced,
      ask entry direction context ⟨value, replaced⟩ = (some ⟨replacement, true⟩, effects) :=
  ⟨_, fun replaced => by simp only [ask, replaces.1, replaces.2, if_true]; rfl⟩

theorem run_append (current : Current) :
    (first ++ second).run direction context current =
      match first.run direction context current with
      | (none, effects) => (none, effects)
      | (some next, effects) =>
        let (result, more) := second.run direction context next
        (result, effects ++ more) := by
  induction first generalizing current with
  | nil => rfl
  | cons entry rest ih =>
    simp only [List.cons_append, run]
    rcases ask entry direction context current with ⟨_ | next, effects⟩
    · rfl
    · simp only [ih]
      rcases run direction context rest next with ⟨_ | last, more⟩
      · rfl
      · simp only [List.append_assoc]

-- Whether the value was replaced before shows in no more than the text of a message that nobody
-- replaces any more.
theorem run_message (chain : ListenerChain ε) (direction : Direction) (context : ListenerContext)
    (current : Current) (original : Message) :
    let whole := chain.run direction context current
    let resumed := chain.run direction context ⟨current.value, false⟩
    whole.1.map (·.message original) = resumed.1.map (·.message (current.message original)) ∧
      whole.2 = resumed.2 := by
  induction chain generalizing current original with
  | nil => exact ⟨rfl, rfl⟩
  | cons entry rest ih =>
    obtain ⟨value, replaced⟩ := current
    simp only [run]
    rcases entry.cases direction context value with drops | passes | ⟨replacement, replaces⟩
    · obtain ⟨effects, asked⟩ := ask_of_drops drops
      simp only [asked, Option.map_none, and_self]
    · obtain ⟨effects, asked⟩ := ask_of_passes passes
      obtain ⟨same, more⟩ := ih ⟨value, replaced⟩ original
      simp only [asked]
      exact ⟨same, congrArg (effects ++ ·) more⟩
    · obtain ⟨effects, asked⟩ := ask_of_replaces replaces
      -- Both runs go on from the new value; its text is the same whichever message it replaces.
      have onward := ih ⟨replacement, true⟩ original
      have resumed := ih ⟨replacement, true⟩ (Current.message ⟨value, replaced⟩ original)
      simp only [asked]
      exact ⟨onward.1.trans resumed.1.symm, trivial⟩

theorem readsBack_of_run {current next : Current} {effects : List ε} (legible : chain.Legible)
    (start : current.ReadsBack original)
    (ran : chain.run direction context current = (some next, effects)) : next.ReadsBack original := by
  induction chain generalizing current effects with
  | nil =>
    cases ran
    exact start
  | cons entry rest ih =>
    have below : Legible rest := fun e member => legible e (List.mem_cons_of_mem _ member)
    obtain ⟨value, replaced⟩ := current
    simp only [run] at ran
    rcases entry.cases direction context value with drops | passes | ⟨replacement, replaces⟩
    · obtain ⟨_, asked⟩ := ask_of_drops drops
      simp only [asked, Prod.mk.injEq] at ran
      cases ran.1
    · obtain ⟨_, asked⟩ := ask_of_passes passes
      simp only [asked, Prod.mk.injEq] at ran
      exact ih below start (Prod.ext ran.1 rfl)
    · obtain ⟨_, asked⟩ := ask_of_replaces replaces
      simp only [asked, Prod.mk.injEq] at ran
      have printed : Current.ReadsBack ⟨replacement, true⟩ original :=
        legible entry List.mem_cons_self direction context value replacement replaces.2
      exact ih below printed (Prod.ext ran.1 rfl)

theorem apply_of_value {value : Value} (read : original.value? = some value) :
    chain.apply direction context original =
      ((chain.run direction context ⟨value, false⟩).1.map (·.message original),
        (chain.run direction context ⟨value, false⟩).2) := by
  cases chain with
  | nil => rfl
  | cons entry rest =>
    simp only [apply, List.isEmpty_cons, Bool.false_eq_true, if_false, read]
    rcases run direction context (entry :: rest) ⟨value, false⟩ with ⟨_ | current, effects⟩
    · rfl
    · rfl

theorem apply_of_no_value (unread : original.value? = none) :
    chain.apply direction context original = (some original, []) := by
  simp only [apply, unread]
  split <;> rfl

-- A chain that holds the entries of two makes of every message what the second makes of what the first
-- one leaves, and has the effects of both in a row.
theorem apply_append (legible : first.Legible) (direction : Direction) (context : ListenerContext)
    (message : Message) :
    (first ++ second).apply direction context message =
      match first.apply direction context message with
      | (none, effects) => (none, effects)
      | (some passed, effects) =>
        let (result, more) := second.apply direction context passed
        (result, effects ++ more) := by
  cases read : message.value? with
  | none => simp only [apply_of_no_value read, List.append_nil]
  | some value =>
    simp only [apply_of_value read, run_append]
    cases ran : first.run direction context ⟨value, false⟩ with
    | mk left effects =>
      cases left with
      | none => rfl
      | some current =>
        have start : Current.ReadsBack ⟨value, false⟩ message := by
          rw [Current.ReadsBack, Current.message, if_neg Bool.false_ne_true, read]
        have onward : current.ReadsBack message := readsBack_of_run legible start ran
        have resumed := run_message second direction context current message
        simp only [Option.map_some, apply_of_value onward]
        rw [← resumed.1, ← resumed.2]

-- A listener of the client's side gives another value and one behind it crashes; a third one, in a
-- chain of its own, adds its name.
def replacing : ListenerChain ListenerEffect :=
  [⟨(Script.replace (.object [("tags", .list [])])).listener "new", .client⟩,
    ⟨Script.crash.listener "broken", .all⟩]

def tagging : ListenerChain ListenerEffect := [⟨Script.tag.listener "seen", .all⟩]

-- Equality of values is not decided, so the one value that the listener gives is told by its shape.
def isUntagged : Value → Bool
  | .object [(key, .list [])] => key == "tags"
  | _ => false

theorem legible_replacing : replacing.Legible := by
  have reads : (Message.ofValue (.object [("tags", .list [])])).value?.any isUntagged := by
    decide +kernel
  obtain ⟨value, read, shape⟩ := (Option.any_eq_true _ _).1 reads
  simp only [isUntagged] at shape
  split at shape
  · cases beq_iff_eq.1 shape
    intro entry member direction context value replacement verdict
    simp only [replacing, List.mem_cons, List.not_mem_nil, or_false] at member
    rcases member with rfl | rfl
    · cases verdict
      exact read
    · cases verdict
  · cases shape

theorem apply_append_tagging : replacing.Legible ∧
    (replacing.apply .clientToServer ⟨"k", []⟩ ⟨"[1]"⟩).1 = some ⟨"\x7b\"tags\":[]\x7d"⟩ ∧
    ((replacing ++ tagging).apply .clientToServer ⟨"k", []⟩ ⟨"[1]"⟩).1 =
      some ⟨"\x7b\"tags\":[\"seen\"]\x7d"⟩ := by
  have passed : (replacing.apply .clientToServer ⟨"k", []⟩ ⟨"[1]"⟩).1 =
      some ⟨"\x7b\"tags\":[]\x7d"⟩ := by decide +kernel
  have tagged : (tagging.apply .clientToServer ⟨"k", []⟩ ⟨"\x7b\"tags\":[]\x7d"⟩).1 =
      some ⟨"\x7b\"tags\":[\"seen\"]\x7d"⟩ := by decide +kernel
  refine ⟨legible_replacing, passed, ?_⟩
  rw [apply_append legible_replacing]
  cases first : replacing.apply .clientToServer ⟨"k", []⟩ ⟨"[1]"⟩ with
  | mk left effects =>
    rw [first] at passed
    cases passed
    exact tagged

end LanguageRelay.ListenerChain
