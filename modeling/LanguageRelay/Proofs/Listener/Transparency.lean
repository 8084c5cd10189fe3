import Mathlib.Data.List.Induction
import LanguageRelay.Proofs.Listener.Composition
namespace LanguageRelay.ChainEntry
open Json
variable {ε : Type} {entry : ChainEntry ε} {direction : Direction} {context : ListenerContext}
  {value replacement : Value}

theorem Passes.not_drops (passes : entry.Passes direction context value) :
    ¬ entry.Drops direction context value := by
  rintro ⟨admits, drop⟩
  rcases passes with excluded | verdict | verdict | verdict
  · rw [admits] at excluded
    cases excluded
  all_goals rw [drop] at verdict; cases verdict

theorem Passes.not_replaces (passes : entry.Passes direction context value) :
    ¬ entry.Replaces direction context value replacement := by
  rintro ⟨admits, replace⟩
  rcases passes with excluded | verdict | verdict | verdict
  · rw [admits] at excluded
    cases excluded
  all_goals rw [replace] at verdict; cases verdict

theorem Replaces.not_drops (replaces : entry.Replaces direction context value replacement) :
    ¬ entry.Drops direction context value := by
  rintro ⟨-, drop⟩
  have replace := replaces.2
  rw [drop] at replace
  cases replace

end LanguageRelay.ChainEntry

namespace LanguageRelay.ListenerChain
open Json
variable {ε : Type}

-- The value that comes out behind the entries of a chain.
inductive Arrives (direction : Direction) (context : ListenerContext) (start : Value) :
    ListenerChain ε → Value → Prop where
  | start : Arrives direction context start [] start
  | passed {before entry value} : Arrives direction context start before value →
    entry.Passes direction context value → Arrives direction context start (before ++ [entry]) value
  | replaced {before entry value replacement} : Arrives direction context start before value →
    entry.Replaces direction context value replacement →
    Arrives direction context start (before ++ [entry]) replacement

-- The listener at a place of a chain meets a value. None does if the message is no JSON, or if it was
-- dropped before.
structure Meets (chain : ListenerChain ε) (direction : Direction) (context : ListenerContext)
    (message : Message) (place : Nat) (entry : ChainEntry ε) (value : Value) : Prop where
  entry : chain[place]? = some entry
  arrives : ∃ start, message.value? = some start ∧
    Arrives direction context start (chain.take place) value

def IsDropped (chain : ListenerChain ε) (direction : Direction) (context : ListenerContext)
    (message : Message) : Prop :=
  ∃ place entry value, Meets chain direction context message place entry value ∧
    entry.Drops direction context value

def ReplacedAt (chain : ListenerChain ε) (direction : Direction) (context : ListenerContext)
    (message : Message) (place : Nat) (replacement : Value) : Prop :=
  ∃ entry value, Meets chain direction context message place entry value ∧
    entry.Replaces direction context value replacement

def IsReplaced (chain : ListenerChain ε) (direction : Direction) (context : ListenerContext)
    (message : Message) : Prop :=
  ∃ place replacement, ReplacedAt chain direction context message place replacement

def LastReplacement (chain : ListenerChain ε) (direction : Direction) (context : ListenerContext)
    (message : Message) (replacement : Value) : Prop :=
  ∃ place, ReplacedAt chain direction context message place replacement ∧
    ∀ later other, ReplacedAt chain direction context message later other → later ≤ place

variable {chain before after : ListenerChain ε} {entry last : ChainEntry ε} {direction : Direction}
  {context : ListenerContext} {message : Message} {start value other replacement : Value} {place : Nat}

theorem run_concat (current : Current) :
    ((before ++ [entry]).run direction context current).1 =
      (before.run direction context current).1.bind fun next => (ask entry direction context next).1 := by
  rw [run_append]
  rcases before.run direction context current with ⟨_ | next, effects⟩
  · rfl
  · simp only [run, Option.bind_some]
    rcases ask entry direction context next with ⟨_ | left, more⟩ <;> rfl

theorem Arrives.run (arrives : Arrives direction context start before value) :
    ∃ replaced, (before.run direction context ⟨start, false⟩).1 = some ⟨value, replaced⟩ := by
  induction arrives with
  | start => exact ⟨false, rfl⟩
  | passed _ passes ih =>
    obtain ⟨replaced, ran⟩ := ih
    obtain ⟨effects, asked⟩ := ask_of_passes passes
    exact ⟨replaced, by rw [run_concat, ran, Option.bind_some, asked]⟩
  | replaced _ replaces ih =>
    obtain ⟨replaced, ran⟩ := ih
    obtain ⟨effects, asked⟩ := ask_of_replaces replaces
    exact ⟨true, by rw [run_concat, ran, Option.bind_some, asked]⟩

theorem Arrives.unique (first : Arrives direction context start before value)
    (second : Arrives direction context start before other) : value = other := by
  obtain ⟨_, one⟩ := first.run
  obtain ⟨_, two⟩ := second.run
  rw [one] at two
  cases two
  rfl

theorem meets_concat : Meets (chain ++ [last]) direction context message place entry value ↔
    Meets chain direction context message place entry value ∨
      place = chain.length ∧ entry = last ∧
        ∃ start, message.value? = some start ∧ Arrives direction context start chain value := by
  constructor
  · rintro ⟨here, arrives⟩
    rcases Nat.lt_or_ge place chain.length with inside | outside
    · rw [List.getElem?_append_left inside] at here
      rw [List.take_append_of_le_length (Nat.le_of_lt inside)] at arrives
      exact .inl ⟨here, arrives⟩
    · have bound : place < (chain ++ [last]).length := (List.getElem?_eq_some_iff.1 here).1
      have ends : place = chain.length := by
        rw [List.length_append, List.length_singleton] at bound
        omega
      subst ends
      rw [List.getElem?_concat_length, Option.some.injEq] at here
      rw [List.take_left] at arrives
      exact .inr ⟨rfl, here.symm, arrives⟩
  · rintro (⟨here, arrives⟩ | ⟨rfl, rfl, arrives⟩)
    · have inside : place < chain.length := (List.getElem?_eq_some_iff.1 here).1
      refine ⟨by rw [List.getElem?_append_left inside, here], ?_⟩
      rw [List.take_append_of_le_length (Nat.le_of_lt inside)]
      exact arrives
    · refine ⟨List.getElem?_concat_length, ?_⟩
      rw [List.take_left]
      exact arrives

theorem Meets.lt (meets : Meets chain direction context message place entry value) :
    place < chain.length := (List.getElem?_eq_some_iff.1 meets.entry).1

theorem IsDropped.concat (dropped : IsDropped chain direction context message) :
    IsDropped (chain ++ [last]) direction context message := by
  obtain ⟨place, entry, value, meets, drops⟩ := dropped
  exact ⟨place, entry, value, meets_concat.2 (.inl meets), drops⟩

theorem isDropped_concat (read : message.value? = some start)
    (arrives : Arrives direction context start chain value) :
    IsDropped (chain ++ [last]) direction context message ↔
      IsDropped chain direction context message ∨ last.Drops direction context value := by
  constructor
  · rintro ⟨place, entry, met, meets, drops⟩
    rcases meets_concat.1 meets with meets | ⟨-, rfl, other, same, onward⟩
    · exact .inl ⟨place, entry, met, meets, drops⟩
    · cases read.symm.trans same
      exact .inr (arrives.unique onward ▸ drops)
  · rintro (dropped | drops)
    · exact dropped.concat
    · exact ⟨chain.length, last, value, meets_concat.2 (.inr ⟨rfl, rfl, start, read, arrives⟩), drops⟩

theorem replacedAt_concat (read : message.value? = some start)
    (arrives : Arrives direction context start chain value) :
    ReplacedAt (chain ++ [last]) direction context message place replacement ↔
      ReplacedAt chain direction context message place replacement ∨
        place = chain.length ∧ last.Replaces direction context value replacement := by
  constructor
  · rintro ⟨entry, met, meets, replaces⟩
    rcases meets_concat.1 meets with meets | ⟨ends, rfl, other, same, onward⟩
    · exact .inl ⟨entry, met, meets, replaces⟩
    · cases read.symm.trans same
      exact .inr ⟨ends, arrives.unique onward ▸ replaces⟩
  · rintro (⟨entry, met, meets, replaces⟩ | ⟨rfl, replaces⟩)
    · exact ⟨entry, met, meets_concat.2 (.inl meets), replaces⟩
    · exact ⟨last, value, meets_concat.2 (.inr ⟨rfl, rfl, start, read, arrives⟩), replaces⟩

theorem lastReplacement_concat (read : message.value? = some start)
    (arrives : Arrives direction context start chain value)
    (replaces : last.Replaces direction context value replacement) :
    LastReplacement (chain ++ [last]) direction context message replacement := by
  have given := (replacedAt_concat read arrives).2 (.inr ⟨rfl, replaces⟩)
  refine ⟨chain.length, given, fun later other given => ?_⟩
  rcases (replacedAt_concat read arrives).1 given with ⟨_, _, meets, _⟩ | ⟨ends, _⟩
  · exact Nat.le_of_lt meets.lt
  · exact Nat.le_of_eq ends

-- What a run has come to behind a chain, and why.
inductive Stands (chain : ListenerChain ε) (direction : Direction) (context : ListenerContext)
    (message : Message) (start : Value) : Option Current → Prop where
  | dropped : IsDropped chain direction context message → Stands chain direction context message start none
  | untouched : ¬ IsDropped chain direction context message → ¬ IsReplaced chain direction context message →
    Arrives direction context start chain start →
    Stands chain direction context message start (some ⟨start, false⟩)
  | rewritten {value : Value} : ¬ IsDropped chain direction context message →
    LastReplacement chain direction context message value → Arrives direction context start chain value →
    Stands chain direction context message start (some ⟨value, true⟩)

theorem Stands.arrives {current : Current}
    (stands : Stands chain direction context message start (some current)) :
    ¬ IsDropped chain direction context message ∧ Arrives direction context start chain current.value := by
  cases stands with
  | untouched live _ arrives => exact ⟨live, arrives⟩
  | rewritten live _ arrives => exact ⟨live, arrives⟩

theorem Stands.concat_of_replaces {current : Current} (read : message.value? = some start)
    (stands : Stands chain direction context message start (some current))
    (replaces : last.Replaces direction context current.value replacement) :
    Stands (chain ++ [last]) direction context message start (some ⟨replacement, true⟩) := by
  obtain ⟨live, arrives⟩ := stands.arrives
  refine .rewritten ?_ (lastReplacement_concat read arrives replaces) (arrives.replaced replaces)
  rw [isDropped_concat read arrives]
  exact not_or.2 ⟨live, replaces.not_drops⟩

theorem Stands.concat_of_passes {current : Current} (read : message.value? = some start)
    (stands : Stands chain direction context message start (some current))
    (passes : last.Passes direction context current.value) :
    Stands (chain ++ [last]) direction context message start (some current) := by
  obtain ⟨live, arrives⟩ := stands.arrives
  have still : ¬ IsDropped (chain ++ [last]) direction context message := by
    rw [isDropped_concat read arrives]
    exact not_or.2 ⟨live, passes.not_drops⟩
  have before : ∀ place replacement,
      ReplacedAt (chain ++ [last]) direction context message place replacement →
        ReplacedAt chain direction context message place replacement := by
    intro place replacement given
    rcases (replacedAt_concat read arrives).1 given with given | ⟨-, replaces⟩
    · exact given
    · exact absurd replaces passes.not_replaces
  cases stands with
  | untouched _ same _ =>
    refine .untouched still ?_ (arrives.passed passes)
    rintro ⟨place, replacement, given⟩
    exact same ⟨place, replacement, before place replacement given⟩
  | rewritten _ last _ =>
    obtain ⟨place, given, final⟩ := last
    refine .rewritten still ⟨place, ?_, fun later other more => ?_⟩ (arrives.passed passes)
    · exact (replacedAt_concat read arrives).2 (.inl given)
    · exact final later other (before later other more)

theorem stands_run (read : message.value? = some start) (chain : ListenerChain ε) (direction : Direction)
    (context : ListenerContext) :
    Stands chain direction context message start (run direction context chain ⟨start, false⟩).1 := by
  induction chain using List.reverseRecOn with
  | nil =>
    refine .untouched ?_ ?_ .start
    · rintro ⟨place, entry, value, meets, -⟩
      exact absurd meets.lt (Nat.not_lt_zero _)
    · rintro ⟨place, replacement, entry, value, meets, -⟩
      exact absurd meets.lt (Nat.not_lt_zero _)
  | append_singleton chain last ih =>
    rw [run_concat]
    generalize (run direction context chain ⟨start, false⟩).1 = left at ih
    cases left with
    | none =>
      cases ih with
      | dropped dropped => exact .dropped dropped.concat
    | some current =>
      rw [Option.bind_some]
      rcases last.cases direction context current.value with drops | passes | ⟨replacement, replaces⟩
      · obtain ⟨effects, asked⟩ := ask_of_drops drops
        rw [asked]
        exact .dropped ((isDropped_concat read ih.arrives.2).2 (.inr drops))
      · obtain ⟨effects, asked⟩ := ask_of_passes passes
        rw [asked]
        exact ih.concat_of_passes read passes
      · obtain ⟨effects, asked⟩ := ask_of_replaces replaces
        rw [asked]
        exact ih.concat_of_replaces read replaces

theorem LastReplacement.unique (first : LastReplacement chain direction context message value)
    (second : LastReplacement chain direction context message other) : value = other := by
  obtain ⟨place, given, final⟩ := first
  obtain ⟨place', given', final'⟩ := second
  obtain rfl := Nat.le_antisymm (final' place value given) (final place' other given')
  obtain ⟨entry, met, ⟨here, start, read, arrives⟩, replaces⟩ := given
  obtain ⟨entry', met', ⟨here', start', read', arrives'⟩, replaces'⟩ := given'
  cases here.symm.trans here'
  cases read.symm.trans read'
  obtain rfl := arrives.unique arrives'
  cases replaces.2.symm.trans replaces'.2
  rfl

theorem run_insert (current : Current) (passes : ∀ next effects,
      before.run direction context current = (some next, effects) →
      entry.Passes direction context next.value) :
    ((before ++ entry :: after).run direction context current).1 =
      ((before ++ after).run direction context current).1 := by
  rw [run_append, run_append]
  rcases ran : before.run direction context current with ⟨_ | next, effects⟩
  · rfl
  · obtain ⟨more, asked⟩ := ask_of_passes (passes next effects ran)
    simp only [run, asked]

theorem passes_shadow (filter : ListenerFilter) (root : String) (wrap : Mirror.Job → ε)
    (direction : Direction) (context : ListenerContext) (value : Value) :
    (ChainEntry.mk (Shadow.listener root wrap) filter).Passes direction context value := by
  have verdict : (Shadow.react root value).verdict = .forward ∨
      (Shadow.react root value).verdict = .failed := by
    rw [Shadow.react]
    rcases Mirror.plan root value with _ | _ | _
    · exact .inr rfl
    · exact .inl rfl
    · exact .inl rfl
  exact .inr (verdict.imp_right .inl)

theorem LastReplacement.isReplaced (final : LastReplacement chain direction context message replacement) :
    IsReplaced chain direction context message := by
  obtain ⟨place, given, -⟩ := final
  exact ⟨place, replacement, given⟩

theorem IsReplaced.has_last (replaced : IsReplaced chain direction context message) :
    ∃ replacement, LastReplacement chain direction context message replacement := by
  induction chain using List.reverseRecOn with
  | nil =>
    obtain ⟨place, replacement, entry, value, meets, -⟩ := replaced
    exact absurd meets.lt (Nat.not_lt_zero _)
  | append_singleton chain final ih =>
    by_cases ends : ∃ replacement,
        ReplacedAt (chain ++ [final]) direction context message chain.length replacement
    · obtain ⟨replacement, given⟩ := ends
      refine ⟨replacement, chain.length, given, fun later other more => ?_⟩
      obtain ⟨_, _, meets, -⟩ := more
      have bound := meets.lt
      rw [List.length_append, List.length_singleton] at bound
      exact Nat.le_of_lt_succ bound
    · have earlier : ∀ place replacement,
          ReplacedAt (chain ++ [final]) direction context message place replacement →
            ReplacedAt chain direction context message place replacement := by
        rintro place replacement ⟨entry, value, meets, replaces⟩
        rcases meets_concat.1 meets with inside | ⟨rfl, -⟩
        · exact ⟨entry, value, inside, replaces⟩
        · exact absurd ⟨replacement, entry, value, meets, replaces⟩ ends
      obtain ⟨place, replacement, given⟩ := replaced
      obtain ⟨last, place, ⟨entry, value, meets, replaces⟩, greatest⟩ :=
        ih ⟨place, replacement, earlier place replacement given⟩
      exact ⟨last, place, ⟨entry, value, meets_concat.2 (.inl meets), replaces⟩,
        fun later other more => greatest later other (earlier later other more)⟩

theorem apply_stands (chain : ListenerChain ε) (read : message.value? = some start) : ∃ left,
    Stands chain direction context message start left ∧
      (chain.apply direction context message).1 = left.map (·.message message) :=
  ⟨_, stands_run read chain direction context, by rw [apply_of_value read]⟩

theorem apply_of_dropped (dropped : IsDropped chain direction context message) :
    (chain.apply direction context message).1 = none := by
  obtain ⟨_, _, _, meets, -⟩ := id dropped
  obtain ⟨start, read, -⟩ := meets.arrives
  obtain ⟨left, stands, sent⟩ := apply_stands chain read
  cases left with
  | none => exact sent
  | some current => exact absurd dropped stands.arrives.1

theorem apply_of_untouched (live : ¬ IsDropped chain direction context message)
    (same : ¬ IsReplaced chain direction context message) :
    (chain.apply direction context message).1 = some message := by
  cases read : message.value? with
  | none => rw [apply_of_no_value read]
  | some start =>
    obtain ⟨left, stands, sent⟩ := apply_stands chain read
    cases stands with
    | dropped dropped => exact absurd dropped live
    | untouched => exact sent
    | rewritten _ final _ => exact absurd final.isReplaced same

theorem apply_of_last (live : ¬ IsDropped chain direction context message)
    (final : LastReplacement chain direction context message replacement) :
    (chain.apply direction context message).1 = some (.ofValue replacement) := by
  obtain ⟨_, _, _, _, meets, -⟩ := final.isReplaced
  obtain ⟨start, read, -⟩ := meets.arrives
  obtain ⟨left, stands, sent⟩ := apply_stands chain read
  cases stands with
  | dropped dropped => exact absurd dropped live
  | untouched _ same _ => exact absurd final.isReplaced same
  | rewritten _ last _ =>
    obtain rfl := final.unique last
    exact sent

theorem apply_eq_none_iff : (chain.apply direction context message).1 = none ↔
    IsDropped chain direction context message := by
  refine ⟨fun gone => Classical.byContradiction fun live => ?_, apply_of_dropped⟩
  by_cases replaced : IsReplaced chain direction context message
  · obtain ⟨replacement, final⟩ := replaced.has_last
    rw [apply_of_last live final] at gone
    cases gone
  · rw [apply_of_untouched live replaced] at gone
    cases gone

-- The text of the last replacement may be the text that was sent.
theorem apply_eq_self_iff : (chain.apply direction context message).1 = some message ↔
    ¬ IsDropped chain direction context message ∧
      (¬ IsReplaced chain direction context message ∨ ∃ replacement,
        LastReplacement chain direction context message replacement ∧ .ofValue replacement = message) := by
  constructor
  · intro kept
    have live : ¬ IsDropped chain direction context message := by
      rw [← apply_eq_none_iff, kept]
      exact Option.some_ne_none message
    refine ⟨live, ?_⟩
    by_cases replaced : IsReplaced chain direction context message
    · obtain ⟨replacement, final⟩ := replaced.has_last
      rw [apply_of_last live final] at kept
      exact .inr ⟨replacement, final, Option.some.inj kept⟩
    · exact .inl replaced
  · rintro ⟨live, same | ⟨replacement, final, same⟩⟩
    · exact apply_of_untouched live same
    · rw [apply_of_last live final, same]

theorem apply_insert (passes : ∀ value,
      Meets (before ++ entry :: after) direction context message before.length entry value →
      entry.Passes direction context value) :
    ((before ++ entry :: after).apply direction context message).1 =
      ((before ++ after).apply direction context message).1 := by
  cases read : message.value? with
  | none => rw [apply_of_no_value read, apply_of_no_value read]
  | some start =>
    rw [apply_of_value read, apply_of_value read]
    refine congrArg (Option.map (·.message message)) (run_insert ⟨start, false⟩ fun next effects ran => ?_)
    have stands := stands_run read before direction context
    rw [ran] at stands
    refine passes next.value ⟨?_, start, read, ?_⟩
    · rw [List.getElem?_append_right (Nat.le_refl _), Nat.sub_self, List.getElem?_cons_zero]
    · rw [List.take_left]
      exact stands.arrives.2

-- An entry that passes what it meets could as well be missing, a shadow wherever it stands. Beyond that a
-- message has three ends: it is dropped, it keeps its text, or it is the text of the last replacement.
theorem apply_reached (chain : ListenerChain ε) (direction : Direction) (context : ListenerContext)
    (message : Message) :
    let result := (chain.apply direction context message).1
    (∀ before after entry, chain = before ++ after →
      (∀ value, Meets (before ++ entry :: after) direction context message before.length entry value →
        entry.Passes direction context value) →
      ((before ++ entry :: after).apply direction context message).1 = result) ∧
    (∀ before after filter root wrap, chain = before ++ after →
      ((before ++ ⟨Shadow.listener root wrap, filter⟩ :: after).apply direction context message).1 = result) ∧
    (result = none ↔ IsDropped chain direction context message) ∧
    (message.value? = none → result = some message) ∧
    (result = some message ↔ ¬ IsDropped chain direction context message ∧
      (¬ IsReplaced chain direction context message ∨ ∃ replacement,
        LastReplacement chain direction context message replacement ∧ .ofValue replacement = message)) ∧
    (∀ replacement, ¬ IsDropped chain direction context message →
      LastReplacement chain direction context message replacement →
      result = some (.ofValue replacement)) ∧
    (IsReplaced chain direction context message ↔
      ∃ replacement, LastReplacement chain direction context message replacement) := by
  intro result
  refine ⟨?inserted, ?shadow, apply_eq_none_iff, fun unread => ?unread, apply_eq_self_iff,
    fun replacement => apply_of_last, IsReplaced.has_last, fun ⟨_, final⟩ => final.isReplaced⟩
  case inserted =>
    intro before after entry split passes
    rw [apply_insert passes, ← split]
  case shadow =>
    intro before after filter root wrap split
    rw [apply_insert fun value _ => passes_shadow filter root wrap direction context value, ← split]
  case unread => exact congrArg Prod.fst (apply_of_no_value unread)

-- A gate drops the messages of one method. Behind a listener that gives the message another method it is
-- as good as missing.
def revising : ChainEntry ListenerEffect :=
  ⟨(Script.replace (.object [("method", .text "b")])).listener "new", .all⟩

def gate : ChainEntry ListenerEffect :=
  ⟨Script.drop.listener "gate", { ListenerFilter.all with method := some (.set (.range 97 97)) }⟩

theorem passes_gate_behind {start value : Value}
    (arrives : Arrives .clientToServer ⟨"k", []⟩ start [revising] value) :
    gate.Passes .clientToServer ⟨"k", []⟩ value := by
  obtain ⟨replaced, ran⟩ := arrives.run
  cases ran
  exact .inl (by decide +kernel)

theorem apply_reached_behind_revision :
    (ListenerChain.apply [gate] .clientToServer ⟨"k", []⟩ ⟨"\x7b\"method\":\"a\"\x7d"⟩).1 = none ∧
    (ListenerChain.apply ([revising] ++ gate :: []) .clientToServer ⟨"k", []⟩
      ⟨"\x7b\"method\":\"a\"\x7d"⟩).1 = some ⟨"\x7b\"method\":\"b\"\x7d"⟩ := by
  have caught : (ListenerChain.apply [gate] .clientToServer ⟨"k", []⟩ ⟨"\x7b\"method\":\"a\"\x7d"⟩).1 =
      none := by decide +kernel
  have renamed : (ListenerChain.apply [revising] .clientToServer ⟨"k", []⟩
      ⟨"\x7b\"method\":\"a\"\x7d"⟩).1 = some ⟨"\x7b\"method\":\"b\"\x7d"⟩ := by decide +kernel
  refine ⟨caught, ?_⟩
  rw [← renamed]
  refine (apply_reached [revising] .clientToServer ⟨"k", []⟩ _).1 [revising] [] gate rfl fun value meets => ?_
  obtain ⟨start, -, arrives⟩ := meets.arrives
  exact passes_gate_behind arrives

end LanguageRelay.ListenerChain
