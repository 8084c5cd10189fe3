import LanguageRelay.Proofs.Relay.Changes
namespace LanguageRelay

def Activity.isResting : Activity → Bool
  | .pump _ _ | .awaitExit _ _ _ | .listen _ | .forward _ => true
  | _ => false

namespace Machine

-- No operation, delivery or teardown is in progress. A task that broke down never goes on.
def isQuiet (m : Machine) : Bool :=
  m.tasks.all fun task => task.isBroken || task.frames.all Activity.isResting

-- A session has no server, or a subscriber, or is going to be torn down.
def Attended (m : Machine) (s : SessionId) : Prop :=
  (m.custody s).slot = none ∨ (m.custody s).subscribers ≠ [] ∨
  ∃ u, ∃ f ∈ m.frames u, Tends s (m.custody s).epoch f

-- A step after which a session with a server and without subscribers may be left alone.
inductive Forsakes (m : Machine) (s : SessionId) : Event → Prop where
  | removed {event t gone rest} : event.task? = some t → m.frames t = .remove s gone :: rest →
      ((m.custody s).subscribers.filter fun c => !gone.contains c) = [] →
      (m.custody s).slot ≠ none → Forsakes m s event
  | renewed {event t c rest} : event.task? = some t → m.frames t = .newEpoch s c :: rest →
      (m.custody s).subscribers = [] → (m.custody s).slot ≠ none → Forsakes m s event
  | launched {t after rest} : m.frames t = .spawn s after :: rest →
      (m.custody s).subscribers = [] → Forsakes m s (.launch t none)

-- Some step of the run forsook the session, and nobody has attended to it since.
def Forsaken (setup : Setup) (events : List Event) (s : SessionId) : Prop :=
  ∃ before event after m, events = before ++ event :: after ∧
    initial.runs setup before = some m ∧ Forsakes m s event ∧
    ∀ since, since.IsPrefix after → ∀ next, m.runs setup (event :: since) = some next →
      ¬ next.Attended s

variable {m next : Machine} {setup : Setup} {event : Event} {events : List Event} {t u : TaskId}
  {s r : SessionId} {p : ServerId} {a f : Activity} {held : SessionId → Custody}
  {rest new : List Activity}

-- A closed session is cleared when its slot is empty for good.
def Cleared (m : Machine) : Prop := ∀ u s, .clear s ∈ m.frames u →
  (m.custody s).closed = true ∧ (m.custody s).slot = none ∧
  ∀ v after, .spawn s after ∉ m.frames v

theorem Cleared.turned (cleared : Cleared m) (sound : Sound m)
    (turned : Turned m t a rest new next) : Cleared next := by
  have top : a ∈ m.frames t := turned.stack ▸ List.mem_cons_self
  intro u s member
  obtain ⟨closed, empty, none⟩ : (m.custody s).closed = true ∧ (next.custody s).slot = none ∧
      ∀ v after, .spawn s after ∉ m.frames v := by
    rcases turned.old member (.inl rfl) with ⟨_, added⟩ | ⟨old, _⟩
    · obtain ⟨rfl, free, empty⟩ := turned.move.comes _ added
      refine ⟨sound.accounted.closing t s top, empty, fun v after spawn => ?_⟩
      have mine := sound.locked.held v _ spawn s rfl
      rw [free] at mine; cases mine
    · obtain ⟨closed, empty, none⟩ := cleared u s old
      refine ⟨closed, ?_, none⟩
      rcases turned.move.slot s with same | ⟨still, _⟩
      · rw [same]; exact empty
      · exact still
  refine ⟨(turned.move.forward s).1 closed, empty, fun v after spawn => ?_⟩
  rcases turned.old spawn (.inr ⟨s, rfl⟩) with ⟨_, added⟩ | ⟨old, _⟩
  · obtain ⟨_, isOpen, _⟩ := turned.move.comes _ added
    rw [closed] at isOpen; cases isOpen
  · exact none v after old

theorem Cleared.started {after : AfterStart} (cleared : Cleared m)
    (started : Started m t s after rest next) : Cleared next := by
  have top : .spawn s after ∈ m.frames t := started.stack ▸ List.mem_cons_self
  intro u r member
  have old : .clear r ∈ m.frames u := by
    rcases started.old member (.inl rfl) with ⟨same, _⟩ | same | ⟨old, _⟩
    · cases same
    · cases same
    · exact old
  obtain ⟨closed, empty, none⟩ := cleared u r old
  rcases update_cases started.custody r with ⟨rfl, _⟩ | ⟨_, same⟩
  · exact absurd top (none t after)
  · rw [same]
    refine ⟨closed, empty, fun v next spawn => ?_⟩
    rcases started.old spawn (.inr ⟨r, rfl⟩) with ⟨same, _⟩ | same | ⟨old, _⟩
    · cases same
    · cases same
    · exact none v next old

theorem Cleared.advance (cleared : Cleared m) (sound : Sound m)
    (moved : m.advance setup event = some next) : Cleared next := by
  cases (advance_transition sound.present moved).1 with
  | turned _ turned => exact cleared.turned sound turned
  | started _ started => exact cleared.started started
  | ambient _ ambient =>
    intro u s member
    obtain ⟨closed, empty, none⟩ := cleared u s ((ambient.elsewhere u).old member (.inl rfl))
    rw [ambient.custody]
    exact ⟨closed, empty, fun v after spawn =>
      none v after ((ambient.elsewhere v).old spawn (.inr ⟨s, rfl⟩))⟩

theorem Move.users (move : Move m t a held new) (s : SessionId) :
    (held s).subscribers = (m.custody s).subscribers ∧ (held s).epoch = (m.custody s).epoch ∨
    (held s).subscribers ≠ [] ∧ (∃ c, a = .attach s c) ∨
    (held s).subscribers = (m.custody s).subscribers ∧ (∃ c, a = .newEpoch s c) ∨
    (∃ c, a = .detach s c) ∧ ((held s).subscribers = [] → .planTeardown s ∈ new) ∨
    (∃ gone, a = .remove s gone ∧
      (held s).subscribers = (m.custody s).subscribers.filter fun c => !gone.contains c) ∨
    a = .clear s := by
  have still : held s = m.custody s →
      (held s).subscribers = (m.custody s).subscribers ∧ (held s).epoch = (m.custody s).epoch :=
    fun same => by rw [same]; exact ⟨rfl, rfl⟩
  cases move with
  | plain _ use _ =>
    cases use with
    | same same => exact .inl (still (congrFun same s))
    | attached _ changed =>
      rcases update_cases changed s with ⟨rfl, here⟩ | ⟨_, same⟩
      · exact .inr (.inl ⟨by rw [here]; simp, _, rfl⟩)
      · exact .inl (still same)
    | renewed changed =>
      rcases update_cases changed s with ⟨rfl, here⟩ | ⟨_, same⟩
      · exact .inr (.inr (.inl ⟨by rw [here], _, rfl⟩))
      · exact .inl (still same)
    | detached changed =>
      rcases update_cases changed s with ⟨rfl, here⟩ | ⟨_, same⟩
      · refine .inr (.inr (.inr (.inl ⟨⟨_, rfl⟩, fun none => ?_⟩)))
        rw [here] at none
        rw [if_pos none]; exact List.mem_cons_self
      · exact .inl (still same)
    | removed changed =>
      rcases update_cases changed s with ⟨rfl, here⟩ | ⟨_, same⟩
      · exact .inr (.inr (.inr (.inr (.inl ⟨_, rfl, by rw [here]⟩))))
      · exact .inl (still same)
    | cleared changed =>
      rcases update_cases changed s with ⟨rfl, here⟩ | ⟨_, same⟩
      · exact .inr (.inr (.inr (.inr (.inr rfl))))
      · exact .inl (still same)
  | finishing _ _ same | finished _ _ same | awaited _ same | refused _ same _ =>
    exact .inl (still (congrFun same s))
  | vacated _ _ _ changed | vacant _ _ changed | outlived _ _ _ changed | locked _ _ changed
  | stopped _ _ changed | taken _ changed | released _ _ changed | begun _ changed
  | closed changed =>
    rcases update_cases changed s with ⟨rfl, here⟩ | ⟨_, same⟩
    · rw [here]; exact .inl ⟨rfl, rfl⟩
    · exact .inl (still same)

theorem Tends.isForward (tends : Tends s p f) (k : SocketId) : f ≠ .forward k := by
  rintro rfl; exact tends

theorem Attended.turned (attended : m.Attended s) (cleared : Cleared m)
    (turned : Turned m t a rest new next) (step : event.task? = some t) :
    next.Attended s ∨ Forsakes m s event := by
  have top : a ∈ m.frames t := turned.stack ▸ List.mem_cons_self
  by_cases empty : (next.custody s).slot = none
  · exact .inl (.inl empty)
  have occupied : (m.custody s).slot ≠ none := by
    rcases turned.move.slot s with same | ⟨none, _⟩
    · rw [← same]; exact empty
    · exact absurd none empty
  have used : (next.custody s).subscribers ≠ [] → next.Attended s := fun some => .inr (.inl some)
  rcases turned.move.users s with ⟨same, epoch⟩ | ⟨some, _⟩ | ⟨same, c, rfl⟩ | ⟨_, plans⟩ |
    ⟨gone, rfl, left⟩ | rfl
  · left
    rcases attended with none | some | ⟨u, f, member, tends⟩
    · exact absurd none occupied
    · exact used (same ▸ some)
    · rw [Attended, epoch]
      rcases turned.kept member tends.isForward with ⟨rfl, rfl⟩ | still
      · rcases turned.tends s tends with ⟨g, added, on⟩ | ⟨g, fresh, on⟩ | some | none
        · refine .inr (.inr ⟨u, g, ?_, on⟩)
          rw [turned.replaced]; exact List.mem_append_left _ added
        · exact .inr (.inr ⟨_, g, fresh, on⟩)
        · exact .inr (.inl (same ▸ some))
        · exact .inl none
      · exact .inr (.inr ⟨u, f, still, tends⟩)
  · exact .inl (used some)
  · by_cases unused : (m.custody s).subscribers = []
    · exact .inr (.renewed step turned.stack unused occupied)
    · exact .inl (used (same ▸ unused))
  · by_cases unused : (next.custody s).subscribers = []
    · refine .inl (.inr (.inr ⟨t, .planTeardown s, ?_, rfl⟩))
      rw [turned.replaced]; exact List.mem_append_left _ (plans unused)
    · exact .inl (used unused)
  · by_cases unused : (next.custody s).subscribers = []
    · exact .inr (.removed step turned.stack (left.symm.trans unused) occupied)
    · exact .inl (used unused)
  · exact absurd (cleared t s top).2.1 occupied

theorem Attended.advance (attended : m.Attended s) (sound : Sound m) (cleared : Cleared m)
    (moved : m.advance setup event = some next) : next.Attended s ∨ Forsakes m s event := by
  cases (advance_transition sound.present moved).1 with
  | turned step turned => exact attended.turned cleared turned step
  | started launch started =>
    subst event
    rename_i t r after rest
    by_cases here : s = r
    · subst r
      by_cases unused : (m.custody s).subscribers = []
      · exact .inr (.launched started.stack unused)
      · refine .inl (.inr (.inl ?_))
        rw [started.custody, Function.update_self]; exact unused
    · left
      rw [Attended, started.custody, Function.update_of_ne here]
      refine attended.imp_right (Or.imp_right fun ⟨u, f, member, tends⟩ => ?_)
      rcases started.kept member with ⟨rfl, _⟩ | still
      · exact tends.elim
      · exact ⟨u, f, still, tends⟩
  | ambient _ ambient =>
    left
    rw [Attended, ambient.custody]
    exact attended.imp_right (Or.imp_right fun ⟨u, f, member, tends⟩ =>
      ⟨u, f, (ambient.elsewhere u).kept member tends.isForward, tends⟩)

theorem Cleared.runs (ran : initial.runs setup events = some m) : Cleared m := by
  induction events using List.reverseRecOn generalizing m with
  | nil =>
    cases ran
    intro u s member; rw [frames_initial] at member; cases member
  | append_singleton events event ih =>
    obtain ⟨made, first, moved⟩ := runs_concat ran
    exact (ih first).advance (sound_initial.runs first) moved

theorem Forsaken.of_step (ran : initial.runs setup events = some m) (forsakes : Forsakes m s event)
    (moved : m.advance setup event = some next) (unattended : ¬ next.Attended s) :
    Forsaken setup (events ++ [event]) s := by
  refine ⟨events, event, [], m, rfl, ran, forsakes, fun since within made after => ?_⟩
  cases List.prefix_nil.1 within
  rw [runs, moved] at after
  cases after; exact unattended

theorem Forsaken.concat (forsaken : Forsaken setup events s)
    (ran : initial.runs setup (events ++ [event]) = some next) (unattended : ¬ next.Attended s) :
    Forsaken setup (events ++ [event]) s := by
  obtain ⟨before, first, after, m, rfl, start, forsakes, since⟩ := forsaken
  refine ⟨before, first, after ++ [event], m, by simp, start, forsakes, fun steps within made end_ => ?_⟩
  rcases List.prefix_concat_iff.1 within with rfl | within
  · rw [List.append_assoc, List.cons_append, runs_append, start] at ran
    cases end_.symm.trans ran
    exact unattended
  · exact since steps within made end_

-- A session is attended unless some step forsook it.
theorem attended_or_forsaken (ran : initial.runs setup events = some m) :
    m.Attended s ∨ Forsaken setup events s := by
  induction events using List.reverseRecOn generalizing m with
  | nil => cases ran; exact .inl (.inl rfl)
  | append_singleton events event ih =>
    obtain ⟨made, first, moved⟩ := runs_concat ran
    by_cases attended : m.Attended s
    · exact .inl attended
    · right
      rcases ih first with before | forsaken
      · rcases before.advance (sound_initial.runs first) (Cleared.runs first) moved with now | forsakes
        · exact absurd now attended
        · exact .of_step first forsakes moved attended
      · exact forsaken.concat ran attended

-- What leads to a teardown waits below light frames only.
def Onward (frames : List Activity) : Prop :=
  frames.Pairwise fun upper lower => upper.role.isLight ∨ lower.plans = false

theorem Onward.of_tail (free : ∀ f ∈ new.tail, f.plans = false) : Onward new := by
  cases new with
  | nil => exact List.Pairwise.nil
  | cons a rest =>
    refine List.pairwise_cons.2 ⟨fun f under => .inr (free f under), ?_⟩
    exact List.pairwise_iff_forall_sublist.2 fun {_ lower} within =>
      .inr (free lower (within.subset (by simp)))

theorem Takes.onward (taken : Takes setup m t a made new) : Onward new := by
  by_cases plans : ∃ f ∈ new, f.plans
  · obtain ⟨f, added, plans⟩ := plans
    have stems := taken.leaves.stems f added
    cases f with
    | checkUsed s =>
      obtain ⟨message, rfl⟩ := stems
      cases taken with
      | performs performed =>
        simp only [perform, Machine.fanOut] at performed
        split at performed <;> cases performed
        · cases added
        · simp [Onward, Activity.role, Role.isLight]
    | planTeardown s =>
      obtain ⟨c, rfl⟩ := stems
      cases taken with
      | performs performed =>
        simp only [perform, Machine.detach] at performed
        split at performed <;> cases performed
        · split <;> simp [Onward]
        · cases added
    | startTimer s epoch => exact stems.elim
    | awaitTimer s epoch deadline =>
      obtain rfl := stems
      cases taken with
      | performs performed => cases performed; exact List.pairwise_singleton ..
    | teardown s epoch =>
      rcases stems with rfl | ⟨deadline, rfl⟩
      · cases taken with
        | performs performed =>
          simp only [perform, Machine.planTeardown] at performed
          split at performed <;> cases performed <;> simp [Onward]
      · cases taken with
        | performs performed =>
          simp only [perform, Machine.awaitTimer] at performed
          split at performed <;> cases performed
          exact List.pairwise_singleton ..
    | _ => cases plans
  · refine .of_tail fun f under => Bool.eq_false_iff.2 fun leads => ?_
    exact plans ⟨f, List.mem_of_mem_tail under, leads⟩

theorem Onward.elsewhere (onward : Onward (m.frames u)) (elsewhere : Elsewhere m next u) :
    Onward (next.frames u) := by
  rcases elsewhere with kept | ⟨_, ⟨_, free⟩ | ⟨p, grace, stops⟩, _⟩ | ⟨_, broken⟩
  · rw [kept]; exact onward
  · exact .of_tail free
  · rw [stops]; exact List.pairwise_singleton ..
  · rw [broken]; exact List.Pairwise.nil

theorem Onward.runs (ran : initial.runs setup events = some m) (u : TaskId) : Onward (m.frames u) := by
  refine sound_initial.induction (motive := fun _ now => ∀ u, Onward (now.frames u)) ran
    (fun u => ?_) (fun _ before event after sound moved onward u => ?_) u
  · rw [frames_initial]; exact List.Pairwise.nil
  · cases sound.happens moved with
    | @turned t a rest made new step turned taken =>
      by_cases here : u = t
      · subst u
        have above := onward t
        rw [turned.stack] at above
        rw [turned.replaced]
        exact pairwise_replace above taken.onward turned.move.shaped.2
      · exact (onward u).elsewhere (turned.elsewhere u here)
    | @started t s after rest launch started launches =>
      by_cases here : u = t
      · subst u
        have above := onward t
        rw [started.stack] at above
        rw [launches.replaced]
        show Onward ([_, _, _] ++ rest)
        exact pairwise_replace above (by simp [Activity.plans]) fun light => nomatch light
      · by_cases pump : u = before.tasks.length
        · rw [pump, started.pump]; exact List.pairwise_singleton ..
        · by_cases awaits : u = before.tasks.length + 1
          · rw [awaits, started.awaitExit]; exact List.pairwise_singleton ..
          · rw [started.elsewhere u here pump awaits]; exact onward u
    | ambient _ ambient => exact (onward u).elsewhere (ambient.elsewhere u)

theorem isResting_of_isQuiet (quiet : m.isQuiet) (member : f ∈ m.frames u) :
    f.isResting ∨ ∃ below, m.frames u = .breakdown :: below := by
  have there := lt_of_mem_frames member
  have same : m.frames u = m.tasks[u].frames := by
    simp [frames, task, List.getD_eq_getElem?_getD, there]
  rcases Bool.or_eq_true_iff.1 (List.all_eq_true.1 quiet _ (List.getElem_mem there)) with broken | rests
  · right
    rw [same]
    exact frames_of_isBroken broken
  · exact .inl (List.all_eq_true.1 rests f (same ▸ member))

theorem Sound.slot_of_isQuiet (sound : Sound m) (quiet : m.isQuiet) (lives : m.Lives s p) :
    ∃ slot, (m.custody s).slot = some slot ∧ slot.server = p := by
  rcases sound.accounted.kept s p lives with occupied | ⟨u, f, member, part, _⟩
  · exact occupied
  · exfalso
    rcases isResting_of_isQuiet quiet member with rests | ⟨below, stack⟩
    · cases f <;> simp_all [Activity.isResting, Activity.role]
    · have shaped := sound.locked.shaped u
      rw [stack] at shaped member
      rcases List.mem_cons.1 member with rfl | under
      · cases part
      · rcases (List.pairwise_cons.1 shaped).1 f under with light | free
        · cases light
        · rw [part] at free; cases free

theorem Tends.heavy {epoch : Nat} (tends : Tends s epoch f) (unplanned : f.plans = false) :
    f.role.isHeavy ≠ false := by
  cases f <;> simp_all [Tends, Activity.plans, Activity.role, Role.isHeavy]

-- With no subscriber left and nothing in progress, a live server is one that was forsaken.
theorem orphaned_iff (ran : initial.runs setup events = some m) (quiet : m.isQuiet)
    (unused : (m.session s).subscribers = []) :
    (∃ p, (m.server p).session = some s ∧ (m.server p).isAlive) ↔
      Forsaken setup events s ∧
      ∃ slot, (m.session s).slot = some slot ∧ (m.server slot.server).isAlive := by
  have sound := sound_initial.runs ran
  refine ⟨fun ⟨p, own, alive⟩ => ?_, fun ⟨_, slot, occupied, alive⟩ => ?_⟩
  · obtain ⟨slot, occupied, rfl⟩ := sound.slot_of_isQuiet quiet (lives_iff.2 ⟨own, alive⟩)
    refine ⟨?_, slot, occupied, alive⟩
    rcases attended_or_forsaken (s := s) ran with (none | used | ⟨u, f, member, tends⟩) | forsaken
    · rw [occupied] at none; cases none
    · exact absurd unused used
    · exfalso
      rcases isResting_of_isQuiet quiet member with rests | ⟨below, stack⟩
      · cases f <;> first | exact tends.elim | cases rests
      · have shaped := sound.locked.shaped u
        have onward := Onward.runs ran u
        rw [stack] at shaped onward member
        rcases List.mem_cons.1 member with rfl | under
        · exact tends
        · have unplanned := ((List.pairwise_cons.1 onward).1 f under).resolve_left nofun
          have idle := ((List.pairwise_cons.1 shaped).1 f under).resolve_left nofun
          exact tends.heavy unplanned idle
    · exact forsaken
  · exact ⟨slot.server, sound.accounted.owned s slot occupied, alive⟩

-- A subscriber with room for one event only. The second change of state evicts it.
def eviction : List Event :=
  ([.connect 1, .call (.subscribe "k" 0)] : List Event) ++ (.replicate 11 (.run 0) : List Event) ++
    ([.launch 0 none] : List Event) ++ (.replicate 7 (.run 0) : List Event)

theorem runs_eviction : ∃ m, initial.runs oneKey eviction = some m ∧ m.isQuiet ∧
    (m.session 0).subscribers = [] ∧ (m.server 0).session = some 0 ∧ (m.server 0).isAlive := by
  obtain ⟨m, ran, facts⟩ := (Option.any_eq_true _ _).1 (show (initial.runs oneKey eviction).any
    (fun m => m.isQuiet && (m.session 0).subscribers.isEmpty && (m.server 0).session == some 0 &&
      (m.server 0).isAlive) by decide)
  obtain ⟨⟨⟨quiet, unused⟩, owned⟩, alive⟩ : ((m.isQuiet ∧ (m.session 0).subscribers = []) ∧
    (m.server 0).session = some 0) ∧ (m.server 0).isAlive := by simpa using facts
  exact ⟨m, ran, quiet, unused, owned, alive⟩

-- Nobody is left to use the server, nothing is in progress, and it stays.
theorem orphaned_after_eviction : oneKey.settings.idleTimeout = 0 ∧
    ∃ m, initial.runs oneKey eviction = some m ∧ m.isQuiet ∧ (m.session 0).subscribers = [] ∧
      ∃ p, (m.server p).session = some 0 ∧ (m.server p).isAlive := by
  obtain ⟨m, ran, quiet, unused, owned, alive⟩ := runs_eviction
  exact ⟨rfl, m, ran, quiet, unused, 0, owned, alive⟩

theorem forsaken_by_eviction : Forsaken oneKey eviction 0 := by
  obtain ⟨m, ran, quiet, unused, owned, alive⟩ := runs_eviction
  exact ((orphaned_iff ran quiet unused).1 ⟨0, owned, alive⟩).1

end Machine
end LanguageRelay
