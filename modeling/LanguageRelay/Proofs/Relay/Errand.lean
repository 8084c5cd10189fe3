import LanguageRelay.Proofs.Relay.Idle
import LanguageRelay.Proofs.Relay.Inbound
import LanguageRelay.Proofs.Relay.Passages
namespace LanguageRelay

def ClientEvent.isReport : ClientEvent → Bool
  | .error _ code _ => code == ErrorCode.serverNotRunning.value
  | _ => false

def Activity.isAside : Activity → Bool
  | .setState _ _ | .evict _ | .remove _ _ => true
  | .broadcast _ event => !event.isReport
  | .deliver _ pending _ event => pending.isEmpty || !event.isReport
  | _ => false

def Activity.isSpent : Activity → Bool
  | .breakdown => true
  | activity => activity.isAside

namespace Machine

-- The task decides in this step what becomes of the message it routes.
def Step.decides (t : TaskId) (step : Step) : Bool :=
  step.event.task? == some t &&
    match step.before.frames t with
    | .enqueue sender p message :: _ =>
      match (step.before.server p).enqueue? (.message sender message) with
      | some (true, _) => true
      | _ => false
    | .deliver _ (_ :: _) _ event :: _ => event.isReport
    | .notify s c _ :: _ => c ∉ (step.before.session s).subscribers
    | .spawn _ (.routing _ _) :: _ => (step.after.task t).isBroken
    | _ => false

inductive Step.Decides (step : Step) (t : TaskId) (s : SessionId) (c : ConnectionId)
    (message : Message) : Prop where
  | taken {p rest after} : step.before.frames t = .enqueue (.client s c) p message :: rest →
      (step.before.server p).enqueue? (.message (.client s c) message) = some (true, after) →
      (step.before.fate p).session = some s → Decides step t s c message
  | told {gone text rest} : step.before.frames t =
      .deliver s [c] gone (.error (step.before.session s).key ErrorCode.serverNotRunning.value text) ::
        rest → Decides step t s c message
  | unheard {text rest} : step.before.frames t = .notify s c text :: rest →
      c ∉ (step.before.session s).subscribers → Decides step t s c message
  | broke {rest} : step.before.frames t = .spawn s (.routing c message) :: rest →
      (step.after.task t).isBroken → Decides step t s c message

def errand (t : TaskId) (below : List Activity) (steps : List Step) : List Step :=
  steps.takeWhile fun step => below.length < (step.before.frames t).length

def Passage.decisions {setup : Setup} {m next : Machine} {events : List Event} {t : TaskId}
    {a : Activity} {below : List Activity} (passage : Passage setup m events next t (a :: below)) :
    List Step :=
  (errand t below (passage.after.steps setup passage.second)).filter (Step.decides t)

-- The frames that bear the message, once the listeners have left it. One that heads for a server heads
-- for one of the session.
def Bears (m : Machine) (s : SessionId) (c : ConnectionId) (message : Message) : Activity → Prop
  | .look r after | .begin r after | .spawn r after | .refused r after _ =>
    r = s ∧ after = .routing c message
  | .started r after p => r = s ∧ after = .routing c message ∧ (m.fate p).session = some s
  | .offer sender p x | .enqueue sender p x =>
    sender = .client s c ∧ x = message ∧ (m.fate p).session = some s
  | .notify r d _ => r = s ∧ d = c
  | .deliver r pending _ event => r = s ∧ pending = [c] ∧
    ∃ text, event = .error (m.session s).key ErrorCode.serverNotRunning.value text
  | _ => False

variable {m made next : Machine} {setup : Setup} {event : Event} {events : List Event} {t u : TaskId}
  {s : SessionId} {c : ConnectionId} {p : ServerId} {a f : Activity} {message : Message}
  {above below rest new : List Activity}

theorem aside_takes (aside : a.isAside) (taken : Takes setup m t a made new) :
    ∀ f ∈ new, f.isAside := by
  cases taken with
  | fails | breaks | attends => cases aside
  | performs performed =>
    cases a with
    | broadcast s event =>
      cases performed
      intro f member
      rw [List.mem_singleton.1 member, Activity.isAside, show (!event.isReport) = true from aside,
        Bool.or_true]
    | deliver s pending gone event =>
      simp only [perform, Machine.deliver] at performed
      split at performed
      · cases performed
        split <;> simp [Activity.isAside]
      · have other : (!event.isReport) = true := by simpa [Activity.isAside] using aside
        split at performed <;> cases performed <;> simp only [List.mem_cons, List.not_mem_nil,
          or_false, forall_eq, forall_eq_or_imp, Activity.isAside, other, Bool.or_true, and_self]
    | evict | remove | setState => cases performed; simp
    | _ => cases aside

theorem isSpent_of_isAside (aside : a.isAside) : a.isSpent := by
  unfold Activity.isSpent
  split
  · rfl
  · exact aside

theorem spent_takes (spent : a.isSpent) (taken : Takes setup m t a made new) :
    ∀ f ∈ new, f.isSpent := by
  by_cases broken : a = .breakdown
  · subst broken
    cases taken with
    | performs performed => cases performed
  · have aside : a.isAside := by
      unfold Activity.isSpent at spent
      split at spent
      · exact absurd rfl broken
      · exact spent
    exact fun f added => isSpent_of_isAside (aside_takes aside taken f added)

theorem decides_of_spent (spent : a.isSpent) (stack : m.frames t = a :: rest) :
    Step.decides t ⟨m, event, next⟩ = false := by
  unfold Step.decides
  rw [stack]
  cases a with
  | broadcast | setState | evict | remove | breakdown => simp
  | deliver s pending gone event =>
    cases pending with
    | nil => simp
    | cons d pending =>
      have other : event.isReport = false := by simpa [Activity.isSpent, Activity.isAside] using spent
      simp [other]
  | _ => cases spent

theorem decides_of_other (step : event.task? ≠ some t) : Step.decides t ⟨m, event, next⟩ = false := by
  simp [Step.decides, step]

theorem Bears.takes (bears : Bears m s c message a) (sound : Sound m)
    (stack : m.frames t = a :: rest) (replaced : next.frames t = new ++ rest)
    (taken : Takes setup m t a made new) (step : event.task? = some t) :
    (Step.decides t ⟨m, event, next⟩ = false ∧
      ∃ aside f, new = aside ++ [f] ∧ (∀ g ∈ aside, g.isAside) ∧ Bears m s c message f) ∨
    Step.decides t ⟨m, event, next⟩ = true ∧ Step.Decides ⟨m, event, next⟩ t s c message ∧
      ∀ f ∈ new, f.isSpent := by
  have silent (spawn : ∀ r after, a ≠ .spawn r after) (other : ∀ sender p x, a ≠ .enqueue sender p x)
      (deliver : ∀ r pending gone e, a ≠ .deliver r pending gone e)
      (notify : ∀ r d text, a ≠ .notify r d text) : Step.decides t ⟨m, event, next⟩ = false := by
    unfold Step.decides
    rw [stack]
    cases a <;> simp_all
  cases taken with
  | fails failed =>
    cases failed
    obtain ⟨rfl, rfl⟩ := bears
    have goes : (next.task t).frames = _ := replaced
    exact .inl ⟨by simp [Step.decides, stack, Task.isBroken, goes], [_, _, _], _, rfl,
      by simp [Activity.isAside, ClientEvent.isReport, ErrorCode.value], rfl, rfl⟩
  | breaks _ broke =>
    cases broke
    obtain ⟨rfl, rfl⟩ := bears
    have broken : (next.task t).isBroken := by
      have stops : (next.task t).frames = _ := replaced
      simp [Task.isBroken, stops]
    exact .inr ⟨by simp [Step.decides, step, stack, broken], .broke stack broken, by simp [Activity.isSpent]⟩
  | attends => exact bears.elim
  | performs performed =>
    cases a with
    | look r after =>
      obtain ⟨rfl, rfl⟩ := bears
      refine .inl ⟨silent (by simp) (by simp) (by simp) (by simp), ?_⟩
      simp only [perform, Machine.look] at performed
      split at performed
      · cases performed
      · split at performed
        · cases performed
          exact ⟨[], _, rfl, by simp, rfl, rfl⟩
        · rename_i slot occupied
          split at performed <;> cases performed
          · exact ⟨[], _, rfl, by simp, rfl, rfl, sound.accounted.owned r slot occupied⟩
          · exact ⟨_, _, rfl, by simp [publish, Activity.isAside, ClientEvent.isReport], rfl, rfl⟩
    | begin r after =>
      obtain ⟨rfl, rfl⟩ := bears
      refine .inl ⟨silent (by simp) (by simp) (by simp) (by simp), ?_⟩
      simp only [perform, Machine.begin] at performed
      split at performed <;> cases performed
      · exact ⟨[], _, rfl, by simp, rfl, rfl⟩
      · exact ⟨[_, _], _, rfl,
          by simp [Activity.isAside, stateEvent, ClientEvent.isReport], rfl, rfl⟩
    | spawn => cases performed
    | started r after p =>
      obtain ⟨rfl, rfl, own⟩ := bears
      cases performed
      exact .inl ⟨silent (by simp) (by simp) (by simp) (by simp), [], _, rfl, by simp, rfl, rfl, own⟩
    | refused r after error =>
      obtain ⟨rfl, rfl⟩ := bears
      cases performed
      exact .inl ⟨silent (by simp) (by simp) (by simp) (by simp), [], _, rfl, by simp, rfl, rfl⟩
    | offer sender p x =>
      obtain ⟨rfl, rfl, own⟩ := bears
      refine .inl ⟨silent (by simp) (by simp) (by simp) (by simp), ?_⟩
      simp only [perform, Machine.offer] at performed
      split at performed <;> cases performed
      · exact ⟨[], _, rfl, by simp, rfl, rfl, own⟩
      · exact ⟨[], _, rfl, by simp, rfl, rfl⟩
    | enqueue sender p x =>
      obtain ⟨rfl, rfl, own⟩ := bears
      have decides : Step.decides t ⟨m, event, next⟩ =
          match (m.server p).enqueue? (.message (.client s c) x) with
          | some (true, _) => true
          | _ => false := by simp [Step.decides, step, stack]
      rw [decides]
      simp only [perform, Machine.enqueue] at performed
      split at performed <;> rename_i put <;> cases performed
      · rw [put]
        exact .inr ⟨rfl, .taken stack put own, by simp⟩
      · rw [put]
        exact .inl ⟨rfl, [], _, rfl, by simp, rfl, rfl⟩
    | notify r d text =>
      obtain ⟨rfl, rfl⟩ := bears
      have decides : Step.decides t ⟨m, event, next⟩ = decide (d ∉ (m.session r).subscribers) := by
        simp [Step.decides, step, stack]
      rw [decides]
      cases performed
      by_cases subscribed : d ∈ (m.session r).subscribers
      · rw [if_pos subscribed]
        exact .inl ⟨by simpa using subscribed, [], _, rfl, by simp, rfl, rfl, text, rfl⟩
      · rw [if_neg subscribed]
        exact .inr ⟨by simpa using subscribed, .unheard stack subscribed, by simp⟩
    | deliver r pending gone e =>
      obtain ⟨rfl, rfl, text, rfl⟩ := bears
      refine .inr ⟨by simp [Step.decides, step, stack, ClientEvent.isReport], .told stack, ?_⟩
      simp only [perform, Machine.deliver] at performed
      split at performed <;> cases performed <;> simp [Activity.isSpent, Activity.isAside]
    | _ => exact bears.elim

theorem Bears.mono (bears : Bears m s c message f) (key : (next.session s).key = (m.session s).key)
    (own : ∀ p, (m.fate p).session = some s → (next.fate p).session = some s) :
    Bears next s c message f := by
  cases f with
  | started | offer | enqueue =>
    obtain ⟨first, second, session⟩ := bears
    exact ⟨first, second, own _ session⟩
  | deliver r pending gone e =>
    obtain ⟨first, second, text, event⟩ := bears
    exact ⟨first, second, text, key ▸ event⟩
  | look | begin | spawn | refused | notify => exact bears
  | _ => exact bears.elim

theorem Bears.ne_forward (bears : Bears m s c message f) (k : SocketId) : f ≠ .forward k := by
  rintro rfl; exact bears

theorem Bears.within (bears : Bears m s c message f) (present : Present m) (member : f ∈ m.frames u) :
    s < m.sessions.length := by
  have within := present.frames u f member
  cases f with
  | look | begin | spawn | started | refused | notify | deliver => exact bears.1 ▸ within
  | offer | enqueue =>
    obtain ⟨rfl, _⟩ := bears
    exact within
  | _ => exact bears.elim

-- A task bears the message below frames that have nothing to do with it.
def Bearing (m : Machine) (s : SessionId) (c : ConnectionId) (message : Message)
    (above : List Activity) : Prop :=
  ∃ aside f, above = aside ++ [f] ∧ (∀ g ∈ aside, g.isAside) ∧ Bears m s c message f

theorem Bearing.turns (bearing : Bearing m s c message above) (sound : Sound m)
    (stack : m.frames t = above ++ below) (moved : m.advance setup event = some next)
    (step : event.task? = some t) : ∃ left, next.frames t = left ++ below ∧
      ((Step.decides t ⟨m, event, next⟩ = false ∧ Bearing next s c message left) ∨
        Step.decides t ⟨m, event, next⟩ = true ∧ Step.Decides ⟨m, event, next⟩ t s c message ∧
          ∀ g ∈ left, g.isSpent) := by
  obtain ⟨aside, f, rfl, light, bears⟩ := bearing
  have there : s < m.sessions.length :=
    bears.within sound.present (u := t) (by rw [stack]; simp)
  have happens := sound.happens moved
  have key := happens.key there
  have own : ∀ p, (m.fate p).session = some s → (next.fate p).session = some s :=
    fun p => happens.owner
  cases happens with
  | @turned u a rest made new mine turned taken =>
    cases mine.symm.trans step
    have same := turned.stack.symm.trans stack
    refine ⟨new ++ (aside ++ [f]).tail, ?_, ?_⟩
    · rw [turned.replaced, List.append_assoc, ← List.tail_append_of_ne_nil (by simp), ← same]; rfl
    cases aside with
    | nil =>
      cases same
      simp only [List.nil_append, List.tail_cons, List.append_nil]
      rcases bears.takes sound turned.stack turned.replaced taken step with
        ⟨quiet, aside, g, rfl, light, bears⟩ | decided
      · exact .inl ⟨quiet, aside, g, rfl, light, bears.mono key own⟩
      · exact .inr decided
    | cons g aside =>
      cases same
      have top : a.isAside := light a List.mem_cons_self
      refine .inl ⟨decides_of_spent (isSpent_of_isAside top) turned.stack, new ++ aside, f, (List.append_assoc ..).symm,
        fun g member => ?_, bears.mono key own⟩
      rcases List.mem_append.1 member with added | under
      · exact aside_takes top taken g added
      · exact light g (List.mem_cons_of_mem _ under)
  | @started u r after rest launch started launches =>
    subst event
    cases step
    have same := started.stack.symm.trans stack
    cases aside with
    | nil =>
      cases same
      obtain ⟨rfl, rfl⟩ := bears
      have goes : (next.task t).frames = _ := launches.replaced
      refine ⟨[_, _, _], launches.replaced, .inl ⟨by simp [Step.decides, stack, Task.isBroken, goes], [_, _], _, rfl, ?_, rfl,
        rfl, ?_⟩⟩
      · simp [Activity.isAside, stateEvent, ClientEvent.isReport]
      · rw [started.fate, Function.update_self]
    | cons g aside =>
      cases same
      cases light _ List.mem_cons_self
  | ambient outside => rw [outside] at step; cases step

theorem spent_turns (light : ∀ g ∈ above, g.isSpent) (occupied : above ≠ []) (sound : Sound m)
    (stack : m.frames t = above ++ below) (moved : m.advance setup event = some next)
    (step : event.task? = some t) : Step.decides t ⟨m, event, next⟩ = false ∧
      ∃ left, next.frames t = left ++ below ∧ ∀ g ∈ left, g.isSpent := by
  obtain ⟨g, above, rfl⟩ := List.exists_cons_of_ne_nil occupied
  have top : g.isSpent := light g List.mem_cons_self
  have starts : ∀ s after, g ≠ .spawn s after := by rintro s after rfl; cases top
  obtain ⟨made, new, taken, replaced, _⟩ := sound.takes moved step stack starts
  refine ⟨decides_of_spent top stack, new ++ above, by rw [replaced, List.append_assoc]; rfl,
    fun f member => ?_⟩
  rcases List.mem_append.1 member with added | under
  · exact spent_takes top taken f added
  · exact light f (List.mem_cons_of_mem _ under)

theorem errand_cons {steps : List Step} (occupied : above ≠ []) (stack : m.frames t = above ++ below) :
    errand t below (⟨m, event, next⟩ :: steps) = ⟨m, event, next⟩ :: errand t below steps := by
  have longer : below.length < (m.frames t).length := by
    rw [stack, List.length_append]
    exact Nat.lt_add_of_pos_left (List.length_pos_iff.2 occupied)
  simp [errand, longer]

theorem kept_stack (sound : Sound m) (occupied : above ≠ []) (firm : ∀ k, .forward k ∉ above)
    (stack : m.frames t = above ++ below) (moved : m.advance setup event = some next)
    (other : event.task? ≠ some t) : next.frames t = above ++ below := by
  obtain ⟨g, above, rfl⟩ := List.exists_cons_of_ne_nil occupied
  have still : ¬ IsForwarder (g :: (above ++ below)) := by
    intro forwards
    obtain ⟨k, rfl⟩ := forwards g List.mem_cons_self
    exact firm k List.mem_cons_self
  rcases (advance_transition sound.present moved).1.stack stack still with ⟨step, _⟩ | ⟨_, kept⟩
  · exact absurd step other
  · exact kept

theorem spent_errand (light : ∀ g ∈ above, g.isSpent) (sound : Sound m)
    (stack : m.frames t = above ++ below) (ran : m.runs setup events = some next) :
    (errand t below (m.steps setup events)).filter (Step.decides t) = [] := by
  induction events generalizing m above with
  | nil => rfl
  | cons event rest ih =>
    obtain ⟨after, moved, onward⟩ := Option.bind_eq_some_iff.1 ran
    simp only [steps, moved]
    by_cases none : above = []
    · subst above
      simp [errand, stack]
    · rw [errand_cons none stack]
      by_cases step : event.task? = some t
      · obtain ⟨quiet, left, stack, light⟩ := spent_turns light none sound stack moved step
        rw [List.filter_cons_of_neg (by simp [quiet])]
        exact ih light (sound.advance moved) stack onward
      · rw [List.filter_cons_of_neg (by simp [decides_of_other step])]
        refine ih light (sound.advance moved) ?_ onward
        refine kept_stack sound none (fun k member => ?_) stack moved step
        cases light _ member

theorem Bears.isResting (bears : Bears m s c message f) : f.isResting = false := by
  cases f <;> first | rfl | exact bears.elim

-- Whoever bears a message and comes to rest has decided about it once.
theorem Bearing.decides (bearing : Bearing m s c message above) (sound : Sound m)
    (stack : m.frames t = above ++ below) (ran : m.runs setup events = some next)
    (rests : ∀ f ∈ next.frames t, f.isResting ∨ ∃ under, next.frames t = .breakdown :: under) :
    ∃ step, (errand t below (m.steps setup events)).filter (Step.decides t) = [step] ∧
      step.Decides t s c message := by
  induction events generalizing m above with
  | nil =>
    cases ran
    obtain ⟨aside, f, rfl, light, bears⟩ := bearing
    rcases rests f (by rw [stack]; simp) with resting | ⟨under, broken⟩
    · rw [bears.isResting] at resting; cases resting
    · rw [stack] at broken
      cases aside with
      | nil => cases broken; exact bears.elim
      | cons g aside => cases broken; cases light _ List.mem_cons_self
  | cons event rest ih =>
    obtain ⟨after, moved, onward⟩ := Option.bind_eq_some_iff.1 ran
    have occupied : above ≠ [] := by obtain ⟨aside, f, rfl, _⟩ := bearing; simp
    simp only [steps, moved]
    rw [errand_cons occupied stack]
    by_cases step : event.task? = some t
    · obtain ⟨left, replaced, ⟨quiet, bearing⟩ | ⟨decided, decides, light⟩⟩ :=
        bearing.turns sound stack moved step
      · rw [List.filter_cons_of_neg (by simp [quiet])]
        exact ih bearing (sound.advance moved) replaced onward
      · rw [List.filter_cons_of_pos decided, spent_errand light (sound.advance moved) replaced onward]
        exact ⟨_, rfl, decides⟩
    · rw [List.filter_cons_of_neg (by simp [decides_of_other step])]
      obtain ⟨aside, f, rfl, light, bears⟩ := bearing
      have there : s < m.sessions.length := bears.within sound.present (u := t) (by rw [stack]; simp)
      have happens := sound.happens moved
      refine ih ⟨aside, f, rfl, light, bears.mono (happens.key there) fun p => happens.owner⟩
        (sound.advance moved) (kept_stack sound occupied (fun k member => ?_) stack moved step) onward
      rcases List.mem_append.1 member with inside | last
      · cases light _ inside
      · exact bears.ne_forward k (List.mem_singleton.1 last).symm

theorem Passage.decides {original : Message}
    (passage : Passage setup initial events m t (.route s c original :: below))
    (kept : passed setup (passage.before.session s).key original = some message) (quiet : m.isQuiet) :
    ∃ step, passage.decisions = [step] ∧ step.Decides t s c message := by
  obtain ⟨_, sound, made, new, taken, replaced⟩ := passage.takes sound_initial (by simp)
  have looks : new = [.look s (.routing c message)] := by
    cases taken with
    | performs performed =>
      simp only [perform, Machine.route, askListeners] at performed
      rw [passed] at kept
      rw [kept] at performed
      cases performed
      rfl
  refine Bearing.decides ⟨[], _, looks, by simp, rfl, rfl⟩ sound replaced passage.onward ?_
  exact fun f => isResting_of_isQuiet quiet

end Machine
end LanguageRelay
