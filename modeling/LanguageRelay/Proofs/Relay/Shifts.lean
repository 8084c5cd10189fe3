import LanguageRelay.Proofs.Relay.Changes
namespace LanguageRelay

namespace Activity

-- The frames that have the lock of the session or its server in hand.
def Steers (s : SessionId) : Activity → Prop
  | .look r _ | .begin r _ | .spawn r _ | .started r _ _ | .refused r _ _ | .unlock r | .vacate r _ _
  | .teardown r _ | .teardownUnlessUsed r | .takeSlot r => r = s
  | _ => False

-- The state of the session that a frame sets.
def sets? (s : SessionId) : Activity → Option SessionState
  | .setState r state => if r = s then some state else none
  | _ => none

def isTied : Activity → Bool
  | .setState _ _ | .clear _ | .begin _ _ | .spawn _ _ | .started _ _ _ | .refused _ _ _ | .unlock _
  | .teardownUnlessUsed _ => true
  | _ => false

end Activity

def ServerExit.state (exit : ServerExit) : SessionState :=
  if exit.isClean then .stopped else .crashed

namespace Machine

inductive Shifts (m : Machine) (t : TaskId) (s : SessionId) :
    Activity → Custody → List Activity → Prop where
  | vacated {g slot exit} : (m.custody s).lock = none → (m.custody s).slot = some slot →
      slot.generation = g → Shifts m t s (.vacate s g exit)
        { m.custody s with lock := some t, slot := none } (m.publish s exit ++ [.unlock s])
  | stale {g exit} : (∀ slot, (m.custody s).slot = some slot → slot.generation ≠ g) →
      Shifts m t s (.vacate s g exit) (m.custody s) []
  | joined {after slot} : (m.custody s).slot = some slot →
      Shifts m t s (.look s after) (m.custody s) (after.whenRunning s slot.server false)
  | vacant {after} : (m.custody s).lock = none → (m.custody s).slot = none →
      Shifts m t s (.look s after) { m.custody s with lock := some t } [.begin s after]
  | outlived {after slot exit} : (m.custody s).lock = none → (m.custody s).slot = some slot →
      (m.server slot.server).exit = some exit → Shifts m t s (.look s after)
        { m.custody s with lock := some t, slot := none } (m.publish s exit ++ [.begin s after])
  | barred {after} : Shifts m t s (.begin s after) (m.custody s) [.refused s after .closed]
  | begun {after} : (m.custody s).closed = false → Shifts m t s (.begin s after)
      { m.custody s with generation := (m.custody s).generation + 1 }
      [.setState s .starting, .broadcast s (m.stateEvent s .starting), .spawn s after]
  | failed {after error told event} : Shifts m t s (.spawn s after) (m.custody s)
      [.setState s .crashed, .broadcast s told, .broadcast s event, .refused s after error]
  | broken {after} :
      Shifts m t s (.spawn s after) { m.custody s with lock := none } [.breakdown]
  | locked {epoch} : (m.custody s).lock = none → Shifts m t s (.teardown s epoch)
      { m.custody s with lock := some t } [.teardownUnlessUsed s]
  | outdated {epoch} : Shifts m t s (.teardown s epoch) (m.custody s) []
  | stopped {slot grace} : (m.custody s).subscribers = [] → (m.custody s).slot = some slot →
      Shifts m t s (.teardownUnlessUsed s) { m.custody s with slot := none }
        [.stop slot.server grace, .setState s .stopped, .unlock s]
  | released {a new} : a.role = .freeing s → (∀ after, a ≠ .begin s after) →
      (∀ after, a ≠ .spawn s after) → (∀ f ∈ new, f.role = .outer) →
      Shifts m t s a { m.custody s with lock := none } new
  | taken {stops} : (m.custody s).lock = none →
      ((m.custody s).slot = none ∧ stops = [] ∨
        ∃ slot grace, (m.custody s).slot = some slot ∧ stops = [.stop slot.server grace]) →
      Shifts m t s (.takeSlot s) { m.custody s with slot := none }
        (stops ++ [.setState s .stopped, .broadcast s (m.stateEvent s .stopped), .clear s])
  | aside {a held new} : ¬ a.Steers s → held.lock = (m.custody s).lock →
      held.slot = (m.custody s).slot → (∀ f ∈ new, f.sets? s = none ∧ f.role ≠ .freeing s) →
      .clear s ∉ new → Shifts m t s a held new

variable {m made next : Machine} {setup : Setup} {event : Event} {t u : TaskId} {s r : SessionId}
  {a f : Activity} {held : SessionId → Custody} {rest new : List Activity} {state : SessionState}

theorem custody_self (there : s < m.sessions.length) (f : Session → Session) :
    (m.updateSession s f).custody s = (f (m.session s)).custody := by
  rw [custody_updateSession there, Function.update_self]

theorem Shifts.look {after : AfterStart} (within : s < m.sessions.length)
    (performed : m.look t s after = some (next, new)) :
    Shifts m t s (.look s after) (next.custody s) new := by
  simp only [Machine.look] at performed
  split at performed
  · cases performed
  · rename_i free
    have free : (m.custody s).lock = none := Option.not_isSome_iff_eq_none.1 free
    split at performed
    · cases performed
      rw [custody_self within]
      exact .vacant free ‹_›
    · split at performed <;> cases performed
      · exact .joined ‹_›
      · rw [custody_setLock_setSlot within, Function.update_self]
        exact .outlived free ‹_› ‹_›

theorem Shifts.begin {after : AfterStart} (within : s < m.sessions.length)
    (performed : m.begin s after = some (next, new)) :
    Shifts m t s (.begin s after) (next.custody s) new := by
  simp only [Machine.begin] at performed
  split at performed <;> cases performed
  · exact .barred
  · rename_i isOpen
    rw [custody_self within]
    exact .begun (Bool.eq_false_iff.2 isOpen)

theorem Shifts.vacate {g : Nat} {exit : ServerExit} (within : s < m.sessions.length)
    (performed : m.vacate t s g exit = some (next, new)) :
    Shifts m t s (.vacate s g exit) (next.custody s) new := by
  simp only [Machine.vacate] at performed
  split at performed
  · cases performed
  · rename_i free
    have free : (m.custody s).lock = none := Option.not_isSome_iff_eq_none.1 free
    split at performed <;> rename_i own <;> cases performed
    · rw [custody_self within]
      cases held : (m.session s).slot with
      | none => simp [held] at own
      | some slot =>
        have same : slot.generation = g := by simpa [held] using own
        exact .vacated free held same
    · refine .stale fun slot (found : (m.session s).slot = some slot) same => own ?_
      simp [found, same]

theorem Shifts.teardown {epoch : Nat} (within : s < m.sessions.length)
    (performed : m.teardown t s epoch = some (next, new)) :
    Shifts m t s (.teardown s epoch) (next.custody s) new := by
  simp only [Machine.teardown] at performed
  split at performed
  · cases performed
  · rename_i free
    have free : (m.custody s).lock = none := Option.not_isSome_iff_eq_none.1 free
    split at performed <;> cases performed
    · rw [custody_self within]
      exact .locked free
    · exact .outdated

theorem Shifts.teardownUnlessUsed (within : s < m.sessions.length)
    (performed : m.teardownUnlessUsed setup s = some (next, new)) :
    Shifts m t s (.teardownUnlessUsed s) (next.custody s) new := by
  simp only [Machine.teardownUnlessUsed] at performed
  split at performed <;> cases performed
  · rw [custody_self within]
    exact .stopped ‹_› ‹_›
  · rw [Machine.unlock, custody_self within]
    exact .released rfl (by simp) (by simp) (by simp)

theorem Shifts.takeSlot (within : s < m.sessions.length)
    (performed : m.takeSlot setup s = some (next, new)) :
    Shifts m t s (.takeSlot s) (next.custody s) new := by
  simp only [Machine.takeSlot] at performed
  split at performed
  · cases performed
  · rename_i free
    have free : (m.custody s).lock = none := Option.not_isSome_iff_eq_none.1 free
    cases performed
    rw [custody_self within]
    refine .taken free ?_
    cases held : (m.session s).slot with
    | none => exact .inl ⟨held, rfl⟩
    | some slot => exact .inr ⟨slot, _, held, rfl⟩

theorem steers_of_announces (announces : a.Announces s) : a.Steers s := by
  cases a <;> first | exact announces | exact announces.elim

theorem Move.aside (move : Move m t a held new) (other : ¬ a.Steers s) :
    (held s).lock = (m.custody s).lock ∧ (held s).slot = (m.custody s).slot ∧
    ∀ f ∈ new, f.role ≠ .freeing s := by
  have same : held s = m.custody s → (held s).lock = (m.custody s).lock ∧
      (held s).slot = (m.custody s).slot := fun same => by rw [same]; exact ⟨rfl, rfl⟩
  have elsewhere : ∀ {r : SessionId} {custody : Custody},
      held = Function.update m.custody r custody → r ≠ s →
      (held s).lock = (m.custody s).lock ∧ (held s).slot = (m.custody s).slot :=
    fun changed apart => same (by rw [changed, Function.update_of_ne apart.symm])
  have loose : ∀ {r : SessionId}, r ≠ s → Role.freeing r ≠ .freeing s :=
    fun apart same => apart (Role.freeing.inj same)
  have last : ∀ {inner : List Activity} {g : Activity}, (∀ f ∈ inner, f.role = .inner) →
      g.role ≠ .freeing s → ∀ f ∈ inner ++ [g], f.role ≠ .freeing s := by
    intro inner g light loose f member
    rcases List.mem_append.1 member with inside | top
    · rw [light f inside]; simp
    · rw [List.mem_singleton.1 top]; exact loose
  cases move with
  | plain _ use roles =>
    obtain ⟨_, _, kept⟩ := use.custody s
    refine ⟨by rw [kept], by rw [kept], fun f member => ?_⟩
    rcases roles f member with inner | ⟨outer, _⟩
    · rw [inner]; simp
    · rw [outer]; simp
  | finishing _ still kept =>
    refine and_assoc.1 ⟨same (congrFun kept s), fun f member => ?_⟩
    rw [List.mem_singleton.1 member, still]; simp
  | finished _ _ kept | awaited _ kept =>
    exact and_assoc.1 ⟨same (congrFun kept s), by simp [Activity.role]⟩
  | vacated _ _ _ changed inner | outlived _ _ _ changed inner | begun _ changed inner =>
    exact and_assoc.1 ⟨elsewhere changed other, last inner (loose other)⟩
  | vacant _ _ changed | locked _ _ changed =>
    refine and_assoc.1 ⟨elsewhere changed other, fun f member => ?_⟩
    rw [List.mem_singleton.1 member]
    exact loose other
  | refused kind kept inner =>
    refine and_assoc.1 ⟨same (congrFun kept s), last inner ?_⟩
    rcases kind with rfl | rfl <;> exact loose other
  | stopped _ _ changed =>
    refine and_assoc.1 ⟨elsewhere changed other, ?_⟩
    simpa [Activity.role, Activity.Steers] using other
  | @released r _ _ _ freeing _ changed outer =>
    have apart : r ≠ s := by
      rintro rfl
      cases a <;> first | exact other (Role.freeing.inj freeing) | cases freeing
    refine and_assoc.1 ⟨elsewhere changed apart, fun f member => ?_⟩
    rw [outer f member]; simp
  | closed changed =>
    rcases update_cases changed s with ⟨rfl, here⟩ | ⟨_, kept⟩
    · exact ⟨by rw [here], by rw [here], by simp [Activity.role]⟩
    · exact and_assoc.1 ⟨same kept, by simp [Activity.role]⟩
  | taken _ changed stops inner =>
    refine and_assoc.1 ⟨elsewhere changed other, fun f member => ?_⟩
    rcases List.mem_append.1 member with stop | later
    · rcases stops with ⟨_, rfl⟩ | ⟨slot, grace, _, rfl⟩
      · cases stop
      · rw [List.mem_singleton.1 stop]; simp [Activity.role]
    · exact last inner (by simp [Activity.role]) f later

theorem sets_of_stems (stems : Stems m a f) (other : ¬ a.Steers s) : f.sets? s = none := by
  cases f with
  | setState r state =>
    have apart : r ≠ s := by
      rintro rfl; exact other (steers_of_announces stems)
    exact if_neg apart
  | _ => rfl

theorem Takes.shifts (taken : Takes setup m t a next new) (within : a.Within m) (s : SessionId) :
    Shifts m t s a (next.custody s) new := by
  by_cases steers : a.Steers s
  · cases taken with
    | fails failed =>
      cases steers
      cases failed
      exact .failed
    | breaks _ broke =>
      cases steers
      cases broke
      have given : ({ m.unlock s with strays := m.strays ++ [some s] } : Machine).custody s =
          { m.custody s with lock := none } := custody_self within _
      rw [given]
      exact .broken
    | attends => exact steers.elim
    | performs performed =>
      cases a with
      | look r after => cases steers; exact .look within performed
      | begin r after => cases steers; exact .begin within performed
      | spawn r after => cases performed
      | vacate r g exit => cases steers; exact .vacate within performed
      | teardown r epoch => cases steers; exact .teardown within performed
      | teardownUnlessUsed r => cases steers; exact .teardownUnlessUsed within performed
      | takeSlot r => cases steers; exact .takeSlot within performed
      | started r after p =>
        cases steers; cases performed
        have given : ((m.unlock s).answer t (.started none)).custody s =
            { m.custody s with lock := none } := custody_self within _
        rw [given]
        exact .released rfl (by simp) (by simp) outer_whenRunning
      | refused r after error =>
        cases steers; cases performed
        have given : ((m.unlock s).answer t (.started (some error))).custody s =
            { m.custody s with lock := none } := custody_self within _
        rw [given]
        exact .released rfl (by simp) (by simp) outer_whenRefused
      | unlock r =>
        cases steers; cases performed
        rw [Machine.unlock, custody_self within]
        exact .released rfl (by simp) (by simp) (by simp)
      | _ => exact steers.elim
  · have move := taken.move within
    obtain ⟨lock, slot, freeing⟩ := move.aside steers
    have stems := taken.leaves.stems
    refine .aside steers lock slot (fun f member => ⟨sets_of_stems (stems f member) steers,
      freeing f member⟩) fun member => ?_
    obtain ⟨rfl, _⟩ := move.comes _ member
    exact steers rfl

def Tied (frames : List Activity) : Prop :=
  frames.Pairwise fun upper lower => upper.role.isLight ∨ lower.isTied = false

theorem not_isTied_of_outer (outer : f.role = .outer) : f.isTied = false := by
  cases f <;> first | rfl | cases outer

theorem not_isTied_of_isEntry (entry : f.isEntry) : f.isTied = false := by
  cases f <;> first | rfl | cases entry

theorem Tied.of_not (loose : ∀ f ∈ new, f.isTied = false) : Tied new :=
  List.pairwise_iff_forall_sublist.2 fun {_ lower} within => .inr (loose lower (within.subset (by simp)))

theorem sets_of_not_isTied (loose : f.isTied = false) : f.sets? s = none := by
  cases f <;> first | rfl | cases loose

theorem Shifts.tied {held : Custody} (shifts : Shifts m t s a held new) (steers : a.Steers s) :
    Tied new := by
  cases shifts with
  | stale | outdated => exact List.Pairwise.nil
  | joined => exact .of_not fun f member => not_isTied_of_outer (outer_whenRunning f member)
  | vacant | barred | locked | broken => exact List.pairwise_singleton ..
  | vacated | outlived | begun | failed | stopped =>
    simp [Tied, publish, Activity.role, Role.isLight]
  | released _ _ _ outer => exact .of_not fun f member => not_isTied_of_outer (outer f member)
  | taken _ stops =>
    rcases stops with ⟨_, rfl⟩ | ⟨slot, grace, _, rfl⟩ <;> simp [Tied, Activity.role, Role.isLight]
  | aside other => exact absurd steers other

theorem tied_of_shifts (shifts : ∀ s, Shifts m t s a (held s) new) : Tied new := by
  by_cases steers : ∃ s, a.Steers s
  · obtain ⟨s, steers⟩ := steers
    exact (shifts s).tied steers
  · refine .of_not fun f member => ?_
    have loose : ∀ s, (f.sets? s = none ∧ f.role ≠ .freeing s) ∧ f ≠ .clear s := by
      intro s
      have shifts := shifts s
      generalize held s = custody at shifts
      cases shifts with
      | aside _ _ _ free clear =>
        refine ⟨free f member, ?_⟩
        rintro rfl; exact clear member
      | released freeing =>
        exact absurd ⟨s, by cases a <;> first | exact Role.freeing.inj freeing | cases freeing⟩ steers
      | _ => exact absurd ⟨s, rfl⟩ steers
    cases f with
    | setState s state => exact absurd (loose s).1.1 (by simp [Activity.sets?])
    | clear s => exact absurd rfl (loose s).2
    | begin s | spawn s | started s | refused s | unlock s | teardownUnlessUsed s =>
      exact absurd rfl (loose s).1.2
    | _ => rfl

theorem Tied.below (tied : Tied (a :: rest)) (heavy : a.role.isLight = false) (member : f ∈ rest) :
    f.isTied = false := by
  rcases (List.pairwise_cons.1 tied).1 f member with light | loose
  · rw [heavy] at light; cases light
  · exact loose

theorem Tied.elsewhere (tied : Tied (m.frames u)) (elsewhere : Elsewhere m next u)
    (begun : ∀ u, m.tasks.length ≤ u → ∀ f ∈ next.frames u, f.isEntry) : Tied (next.frames u) := by
  rcases elsewhere with kept | ⟨beyond, _⟩ | ⟨_, broken⟩
  · rw [kept]; exact tied
  · exact .of_not fun f member => not_isTied_of_isEntry (begun u beyond f member)
  · rw [broken]; exact List.Pairwise.nil

theorem tied_started {after : AfterStart} (tied : ∀ u, Tied (m.frames u))
    (started : Started m t s after rest next) (launches : Launches setup m t s after rest next) :
    Tied (next.frames u) := by
  by_cases here : u = t
  · subst u
    have shaped := tied t
    rw [started.stack] at shaped
    rw [launches.replaced]
    show Tied ([_, _, _] ++ rest)
    exact pairwise_replace shaped (by simp [Activity.role, Role.isLight])
      fun light => nomatch light
  · by_cases pump : u = m.tasks.length
    · rw [pump, started.pump]; exact List.pairwise_singleton ..
    · by_cases awaits : u = m.tasks.length + 1
      · rw [awaits, started.awaitExit]; exact List.pairwise_singleton ..
      · rw [started.elsewhere u here pump awaits]; exact tied u

theorem Turned.shifts (turned : Turned m t a rest new next) (sound : Sound m)
    (taken : Takes setup m t a made new)
    (shape : next = made.updateTask t fun task => { task with frames := new ++ rest })
    (s : SessionId) : Shifts m t s a (next.custody s) new := by
  have within := sound.present.frames t a (turned.stack ▸ List.mem_cons_self)
  rw [shape]
  exact taken.shifts within s

theorem tied_advance (tied : ∀ u, Tied (m.frames u)) (sound : Sound m)
    (happens : Happens setup m event next) (u : TaskId) : Tied (next.frames u) := by
  cases happens with
  | @turned t a rest made new step turned taken leaves shape =>
    by_cases here : u = t
    · subst u
      have shaped := tied t
      rw [turned.stack] at shaped
      rw [turned.replaced]
      exact pairwise_replace shaped (tied_of_shifts fun s => turned.shifts sound taken shape s)
        turned.move.shaped.2
    · exact (tied u).elsewhere (turned.elsewhere u here) leaves.foot.begun
  | started _ started launches => exact tied_started tied started launches
  | ambient _ ambient outside => exact (tied u).elsewhere (ambient.elsewhere u) outside.begun

end Machine
end LanguageRelay
