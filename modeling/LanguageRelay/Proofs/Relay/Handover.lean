import LanguageRelay.Proofs.Relay.Standing
namespace LanguageRelay

def Event.disposes (p : ServerId) : Event → Bool
  | .release q | .call (.stop q _) => q == p
  | _ => false

theorem Event.disposes_iff {p : ServerId} {event : Event} :
    event.disposes p ↔ event = .release p ∨ ∃ grace, event = .call (.stop p grace) := by
  constructor
  · intro disposes
    cases event with
    | release q => rw [beq_iff_eq.1 disposes]; exact .inl rfl
    | call operation =>
      cases operation with
      | stop q grace => rw [beq_iff_eq.1 disposes]; exact .inr ⟨grace, rfl⟩
      | _ => cases disposes
    | _ => cases disposes
  · rintro (rfl | ⟨grace, rfl⟩) <;> exact beq_self_eq_true p

namespace Machine

-- A server is disposed of once: by its session, or else by whoever has started it alone.
def Exclusive (m : Machine) (events : List Event) (p : ServerId) : Prop :=
  events.countP (Event.disposes p) ≤ if (m.server p).session = none then 1 else 0

instance (m : Machine) (events : List Event) (p : ServerId) : Decidable (m.Exclusive events p) :=
  inferInstanceAs (Decidable (_ ≤ _))

-- Nobody has begun to see the server to its end.
structure AtLarge (m : Machine) (p : ServerId) : Prop where
  frames : ∀ u, ∀ f ∈ m.frames u, f.role ≠ .finishing p
  unasked : (m.server p).killRequested = false

-- The server is out of its slot, and the frame on top of the task alone sees it to its end.
structure InHand (m : Machine) (p : ServerId) (t : TaskId) (f : Activity) (rest : List Activity) :
    Prop where
  stack : m.frames t = f :: rest
  part : f.role = .finishing p
  below : ∀ g ∈ rest, g.role ≠ .finishing p
  others : ∀ u, u ≠ t → ∀ g ∈ m.frames u, g.role ≠ .finishing p
  vacant : ∀ s, ¬ m.Holds s p
  there : p < m.servers.length
  asked : (m.server p).killRequested → f = .awaitKilled p

structure LetGo (m : Machine) (p : ServerId) : Prop where
  frames : ∀ u, ∀ f ∈ m.frames u, f.role ≠ .finishing p
  vacant : ∀ s, ¬ m.Holds s p
  there : p < m.servers.length

inductive Whereabouts (m : Machine) (p : ServerId) : Prop where
  | atLarge : m.AtLarge p → Whereabouts m p
  | inHand {t f rest} : m.InHand p t f rest → Whereabouts m p
  | letGo : m.LetGo p → Whereabouts m p

-- What seeing a server to its end goes on with while no exit is recorded.
inductive Nears (m : Machine) (p : ServerId) : Activity → Activity → Prop where
  | asks {grace} : Nears m p (.stop p grace) (.askToFinish p grace (m.clock + grace))
  | waits {grace deadline} :
      Nears m p (.askToFinish p grace deadline) (.awaitEnd p (m.clock + grace))
  | givesUp {deadline} : deadline ≤ m.clock → Nears m p (.awaitEnd p deadline) (.awaitKilled p)

variable {m made next : Machine} {setup : Setup} {event : Event} {events more : List Event}
  {t u : TaskId} {s : SessionId} {p : ServerId} {f g : Activity} {rest new : List Activity}
  {grace : Nat}

theorem Nears.part (nears : Nears m p f g) : g.role = .finishing p := by
  cases nears <;> rfl

theorem Takes.nears (taken : Takes setup m t f made new) (part : f.role = .finishing p) :
    (∃ g, new = [g] ∧ Nears m p f g) ∨
    ∃ exit, (m.server p).exit = some exit ∧ new = [.abandon p exit] := by
  cases taken with
  | fails | breaks | attends => cases part
  | performs performed =>
    cases f with
    | stop =>
      cases part
      cases performed
      exact .inl ⟨_, rfl, .asks⟩
    | askToFinish =>
      cases part
      simp only [perform, askToFinish] at performed
      split at performed
      · cases performed
        exact .inl ⟨_, rfl, .waits⟩
      · split at performed <;> cases performed
        exact .inl ⟨_, rfl, .waits⟩
    | awaitEnd =>
      cases part
      simp only [perform, awaitEnd] at performed
      split at performed
      · rename_i exit ended
        cases performed
        exact .inr ⟨exit, ended, rfl⟩
      · split at performed <;> cases performed
        rename_i due
        exact .inl ⟨_, rfl, .givesUp due⟩
    | awaitKilled =>
      cases part
      obtain ⟨exit, ended, pair⟩ := Option.map_eq_some_iff.1 performed
      cases pair
      exact .inr ⟨exit, ended, rfl⟩
    | _ => cases part

theorem Holds.session (sound : Sound m) (holds : m.Holds s p) : (m.server p).session = some s := by
  obtain ⟨slot, occupied, rfl⟩ := holds
  exact sound.accounted.owned s slot occupied

theorem Happens.vacant (happens : Happens setup m event next) (there : p < m.servers.length)
    (vacant : ∀ s, ¬ m.Holds s p) : ∀ s, ¬ next.Holds s p := by
  intro s holds
  rcases happens.holds holds with before | last
  · exact vacant s before
  · exact absurd there (Nat.not_lt_of_le (Nat.le_of_eq last.symm))

theorem Sound.begins (sound : Sound m) (moved : m.advance setup event = some next)
    (none : ∀ g ∈ m.frames u, g.role ≠ .finishing p) (member : f ∈ next.frames u)
    (part : f.role = .finishing p) :
    (∃ s grace rest, event.task? = some u ∧ Step.TakesOut ⟨m, event, next⟩ s p ∧
      next.frames u = .stop p grace :: rest ∧ ∀ g ∈ rest, g.role ≠ .finishing p) ∨
    u = m.tasks.length ∧ ∃ grace, event = .call (.stop p grace) := by
  cases sound.seesOff moved member part with
  | kept old => exact absurd part (none f old)
  | goesOn _ stack same => exact absurd same (none _ (stack ▸ List.mem_cons_self))
  | @takesOut a below later grace s step stack takesOut _ replaced loose =>
    refine .inl ⟨s, grace, later ++ below, step, takesOut, replaced, fun g among => ?_⟩
    rcases List.mem_append.1 among with above | under
    · exact loose g above
    · exact none g (stack ▸ List.mem_cons_of_mem _ under)
  | asked call last => exact .inr ⟨last, _, call⟩

theorem AtLarge.unasked_next (large : m.AtLarge p) (happens : Happens setup m event next)
    (other : ¬ event.disposes p) : (next.server p).killRequested = false := by
  apply Bool.eq_false_iff.2
  intro asked
  rcases (happens.enters p).killed asked with before | released | ⟨t, deadline, _, rest, stack⟩
  · exact absurd before (Bool.eq_false_iff.1 large.unasked)
  · exact other (Event.disposes_iff.2 (.inl released))
  · exact large.frames t _ (stack ▸ List.mem_cons_self) rfl

-- The task that takes the server out of its slot has it alone. No other session holds it.
theorem AtLarge.inHand (large : m.AtLarge p) (sound : Sound m)
    (moved : m.advance setup event = some next) (other : ¬ event.disposes p)
    (step : event.task? = some t) (takesOut : Step.TakesOut ⟨m, event, next⟩ s p)
    (stack : next.frames t = .stop p grace :: rest) (below : ∀ g ∈ rest, g.role ≠ .finishing p) :
    next.InHand p t (.stop p grace) rest := by
  have happens := sound.happens moved
  have there := Holds.lt sound takesOut.1
  refine ⟨stack, rfl, below, fun u away g among same => ?_, fun r holds => ?_,
    Nat.lt_of_lt_of_le there happens.length_servers, fun asked => ?_⟩
  · rcases sound.begins moved (large.frames u) among same with ⟨_, _, _, own, _⟩ | ⟨_, grace, call⟩
    · exact away (Option.some.inj (own.symm.trans step))
    · exact other (Event.disposes_iff.2 (.inr ⟨grace, call⟩))
  · rcases happens.holds holds with before | last
    · cases (before.session sound).symm.trans (takesOut.1.session sound)
      exact takesOut.2 holds
    · exact absurd there (Nat.not_lt_of_le (Nat.le_of_eq last.symm))
  · cases (large.unasked_next happens other).symm.trans asked

theorem AtLarge.advance (large : m.AtLarge p) (sound : Sound m)
    (moved : m.advance setup event = some next) (other : ¬ event.disposes p) :
    next.AtLarge p ∨ (∃ s, m.Holds s p) ∧ ∃ t f rest, next.InHand p t f rest := by
  by_cases begun : ∃ u, ∃ f ∈ next.frames u, f.role = .finishing p
  · obtain ⟨u, f, member, part⟩ := begun
    rcases sound.begins moved (large.frames u) member part with
      ⟨s, grace, rest, step, takesOut, stack, below⟩ | ⟨_, grace, call⟩
    · have hand := large.inHand sound moved other step takesOut stack below
      exact .inr ⟨⟨s, takesOut.1⟩, u, _, rest, hand⟩
    · exact absurd (Event.disposes_iff.2 (.inr ⟨grace, call⟩)) other
  · exact .inl ⟨fun u f member part => begun ⟨u, f, member, part⟩,
      large.unasked_next (sound.happens moved) other⟩

theorem AtLarge.disposed (large : m.AtLarge p) (sound : Sound m)
    (moved : m.advance setup event = some next) (disposes : event.disposes p)
    (alone : (m.server p).session = none) : Whereabouts next p := by
  have happens := sound.happens moved
  have more := happens.length_servers
  have vacant : ∀ s, ¬ m.Holds s p := by
    intro s holds
    cases alone.symm.trans (holds.session sound)
  have elsewhere : ∀ u, u ≠ m.tasks.length → ∀ g ∈ next.frames u, g.role ≠ .finishing p := by
    intro u away g among same
    rcases sound.begins moved (large.frames u) among same with ⟨s, _, _, _, takesOut, _⟩ | ⟨last, _⟩
    · exact vacant s takesOut.1
    · exact away last
  -- Whoever gives the server up has it killed by its watcher; nobody waits for that.
  rcases Event.disposes_iff.1 disposes with rfl | ⟨grace, rfl⟩
  · have there : p < m.servers.length := by
      by_contra beyond
      simp [Machine.advance, changeServer, beyond] at moved
    refine .letGo ⟨fun u f member part => ?_, happens.vacant there vacant,
      Nat.lt_of_lt_of_le there more⟩
    rcases sound.begins moved (large.frames u) member part with ⟨_, _, _, step, _⟩ | ⟨_, _, call⟩
    · cases step
    · cases call
  · have there : p < m.servers.length := by
      by_contra beyond
      simp [Machine.advance, Operation.isKnown, beyond] at moved
    have shape : next = m.addTask [.stop p grace] := by
      simpa [Machine.advance, Operation.isKnown, Operation.frames, there] using moved.symm
    have stack : next.frames m.tasks.length = [.stop p grace] := by
      rw [shape, frames_addTask, if_pos rfl]
    refine .inHand ⟨stack, rfl, by simp, elsewhere, happens.vacant there vacant,
      Nat.lt_of_lt_of_le there more, fun asked => ?_⟩
    rw [shape] at asked
    cases large.unasked.symm.trans asked

theorem Sound.unbegun (sound : Sound m) (moved : m.advance setup event = some next)
    (other : ¬ event.disposes p) (vacant : ∀ s, ¬ m.Holds s p)
    (none : ∀ g ∈ m.frames u, g.role ≠ .finishing p) : ∀ g ∈ next.frames u, g.role ≠ .finishing p := by
  intro g among same
  rcases sound.begins moved none among same with ⟨s, _, _, _, takesOut, _⟩ | ⟨_, grace, call⟩
  · exact vacant s takesOut.1
  · exact other (Event.disposes_iff.2 (.inr ⟨grace, call⟩))

theorem LetGo.advance (gone : m.LetGo p) (sound : Sound m)
    (moved : m.advance setup event = some next) (other : ¬ event.disposes p) : next.LetGo p := by
  have happens := sound.happens moved
  exact ⟨fun u => sound.unbegun moved other gone.vacant (gone.frames u),
    happens.vacant gone.there gone.vacant, Nat.lt_of_lt_of_le gone.there happens.length_servers⟩

-- The child is asked to be killed only by the task that sees the server to its end.
theorem InHand.asked_next (hand : m.InHand p t f rest) (happens : Happens setup m event next)
    (other : ¬ event.disposes p) (asked : (next.server p).killRequested) :
    (m.server p).killRequested ∨ event.task? = some t ∧ ∃ deadline, f = .awaitEnd p deadline := by
  rcases (happens.enters p).killed asked with before | released | ⟨u, deadline, step, below, stack⟩
  · exact .inl before
  · exact absurd (Event.disposes_iff.2 (.inl released)) other
  · by_cases here : u = t
    · subst u
      cases stack.symm.trans hand.stack
      exact .inr ⟨step, deadline, rfl⟩
    · exact absurd rfl (hand.others u here _ (stack ▸ List.mem_cons_self))

theorem InHand.turned (hand : m.InHand p t f rest) (sound : Sound m)
    (moved : m.advance setup event = some next) (other : ¬ event.disposes p)
    (step : event.task? = some t) : (∃ g, Nears m p f g ∧ next.InHand p t g rest) ∨
      ∃ exit, (m.server p).exit = some exit ∧ next.frames t = .abandon p exit :: rest ∧ next.LetGo p := by
  have happens := sound.happens moved
  have others := fun u away => sound.unbegun moved other hand.vacant (hand.others u away)
  have vacant := happens.vacant hand.there hand.vacant
  have there := Nat.lt_of_lt_of_le hand.there happens.length_servers
  have starts : ∀ s after, f ≠ .spawn s after := by
    rintro s after rfl; cases hand.part
  obtain ⟨made, new, taken, replaced, _⟩ := sound.takes moved step hand.stack starts
  rcases taken.nears hand.part with ⟨g, rfl, nears⟩ | ⟨exit, ended, rfl⟩
  · refine .inl ⟨g, nears, replaced, nears.part, hand.below, others, vacant, there, fun asked => ?_⟩
    rcases hand.asked_next happens other asked with before | ⟨_, deadline, rfl⟩
    · cases hand.asked before
      cases nears
    · cases nears
      rfl
  · refine .inr ⟨exit, ended, replaced, fun u h among => ?_, vacant, there⟩
    by_cases here : u = t
    · subst u
      rw [replaced] at among
      rcases List.mem_cons.1 among with rfl | under
      · nofun
      · exact hand.below h under
    · exact others u here h among

theorem InHand.advance (hand : m.InHand p t f rest) (sound : Sound m)
    (moved : m.advance setup event = some next) (other : ¬ event.disposes p) :
    event.task? ≠ some t ∧ next.InHand p t f rest ∨
    event.task? = some t ∧ ((∃ g, Nears m p f g ∧ next.InHand p t g rest) ∨
      ∃ exit, (m.server p).exit = some exit ∧ next.frames t = .abandon p exit :: rest ∧ next.LetGo p) := by
  have happens := sound.happens moved
  have firm : ¬ IsForwarder (f :: rest) := by
    intro forwards
    obtain ⟨k, rfl⟩ := forwards f List.mem_cons_self
    cases hand.part
  rcases (advance_transition sound.present moved).1.stack hand.stack firm with
    ⟨step, _⟩ | ⟨away, kept⟩
  · exact .inr ⟨step, hand.turned sound moved other step⟩
  · refine .inl ⟨away, kept, hand.part, hand.below,
      fun u away => sound.unbegun moved other hand.vacant (hand.others u away),
      happens.vacant hand.there hand.vacant, Nat.lt_of_lt_of_le hand.there happens.length_servers,
      fun asked => ?_⟩
    rcases hand.asked_next happens other asked with before | ⟨step, _⟩
    · exact hand.asked before
    · exact absurd step away

theorem runs_one (moved : m.advance setup event = some next) : m.runs setup [event] = some next := by
  rw [runs, moved]; rfl

theorem Sound.owner (sound : Sound m) (ran : m.runs setup events = some next)
    (own : (m.server p).session = some s) : (next.server p).session = some s := by
  induction events generalizing m with
  | nil => cases ran; exact own
  | cons event rest ih =>
    obtain ⟨made, moved, onward⟩ := Option.bind_eq_some_iff.1 ran
    exact ih (sound.advance moved) onward ((sound.happens moved).owner own)

theorem Sound.alone (sound : Sound m) (ran : m.runs setup events = some next)
    (alone : (next.server p).session = none) : (m.server p).session = none := by
  cases owner : (m.server p).session with
  | none => rfl
  | some s => cases alone.symm.trans (sound.owner ran owner)

theorem Exclusive.earlier (exclusive : next.Exclusive (events ++ more) p) (sound : Sound m)
    (ran : m.runs setup more = some next) : m.Exclusive events p := by
  unfold Exclusive at exclusive ⊢
  rw [List.countP_append] at exclusive
  cases owner : (m.server p).session with
  | none =>
    rw [if_pos rfl]
    split at exclusive <;> omega
  | some s =>
    rw [sound.owner ran owner, if_neg nofun] at exclusive
    exact Nat.le_trans (Nat.le_add_right _ _) (Nat.le_trans exclusive (Nat.zero_le _))

theorem Exclusive.once (exclusive : m.Exclusive (events ++ event :: more) p)
    (disposes : event.disposes p) :
    (m.server p).session = none ∧ events.countP (Event.disposes p) = 0 := by
  unfold Exclusive at exclusive
  rw [List.countP_append, List.countP_cons_of_pos disposes] at exclusive
  split at exclusive
  · rename_i alone
    exact ⟨alone, by omega⟩
  · omega

theorem atLarge_initial (p : ServerId) : initial.AtLarge p := by
  refine ⟨fun u f member => ?_, rfl⟩
  rw [frames_initial] at member; cases member

theorem AtLarge.runs (ran : initial.runs setup events = some m)
    (unused : events.countP (Event.disposes p) = 0) (alone : (m.server p).session = none) :
    m.AtLarge p := by
  induction events using List.reverseRecOn generalizing m with
  | nil => cases ran; exact atLarge_initial p
  | append_singleton events event ih =>
    obtain ⟨made, first, moved⟩ := runs_concat ran
    have sound := sound_initial.runs first
    have before := sound.alone (runs_one moved) alone
    rw [List.countP_append, Nat.add_eq_zero_iff, List.countP_eq_zero (l := [event])] at unused
    rcases (ih first unused.1 before).advance sound moved (unused.2 event List.mem_cons_self) with
      large | ⟨⟨s, holds⟩, _⟩
    · exact large
    · cases before.symm.trans (holds.session sound)

theorem Whereabouts.runs (ran : initial.runs setup events = some m)
    (exclusive : m.Exclusive events p) : Whereabouts m p := by
  induction events using List.reverseRecOn generalizing m with
  | nil => cases ran; exact .atLarge (atLarge_initial p)
  | append_singleton events event ih =>
    obtain ⟨made, first, moved⟩ := runs_concat ran
    have sound := sound_initial.runs first
    by_cases disposes : event.disposes p
    · obtain ⟨alone, unused⟩ := exclusive.once disposes
      have before := sound.alone (runs_one moved) alone
      exact (AtLarge.runs first unused before).disposed sound moved disposes before
    · cases ih first (exclusive.earlier sound (runs_one moved)) with
      | atLarge large =>
        rcases large.advance sound moved disposes with large | ⟨_, t, f, rest, hand⟩
        · exact .atLarge large
        · exact .inHand hand
      | inHand hand =>
        rcases hand.advance sound moved disposes with ⟨_, hand⟩ | ⟨_, ⟨g, _, hand⟩ | ⟨_, _, _, gone⟩⟩
        · exact .inHand hand
        · exact .inHand hand
        · exact .letGo gone
      | letGo gone => exact .letGo (gone.advance sound moved disposes)

-- A task that is to see the server to its end is the only one, and nobody outside disposes of it later.
theorem inHand_of_finishing (ran : initial.runs setup events = some m) (stack : m.frames t = f :: rest)
    (part : f.role = .finishing p) (onward : m.runs setup more = some next)
    (exclusive : next.Exclusive (events ++ more) p) :
    m.InHand p t f rest ∧ ∀ event ∈ more, ¬ event.disposes p := by
  have sound := sound_initial.runs ran
  have top : f ∈ m.frames t := stack ▸ List.mem_cons_self
  constructor
  · cases Whereabouts.runs ran (exclusive.earlier sound onward) with
    | atLarge large => exact absurd part (large.frames t f top)
    | @inHand u g below hand =>
      by_cases here : t = u
      · subst u
        cases stack.symm.trans hand.stack
        exact hand
      · exact absurd part (hand.others t here f top)
    | letGo gone => exact absurd part (gone.frames t f top)
  · intro event member disposes
    obtain ⟨front, back, rfl⟩ := List.append_of_mem member
    rw [← List.append_assoc] at exclusive
    obtain ⟨alone, unused⟩ := exclusive.once disposes
    rw [List.countP_append, Nat.add_eq_zero_iff] at unused
    have large := AtLarge.runs ran unused.1 (sound.alone onward alone)
    exact large.frames t f top part

end Machine
end LanguageRelay
