import LanguageRelay.Proofs.Relay.Transitions
namespace LanguageRelay

def Role.isLight : Role → Bool
  | .inner | .finishing _ => true
  | _ => false

def Role.isHeavy : Role → Bool
  | .finishing _ | .freeing _ => true
  | _ => false

namespace Machine
variable {m next : Machine} {setup : Setup} {event : Event} {t u : TaskId} {s : SessionId}
  {p : ServerId} {a f : Activity} {held : SessionId → Custody} {rest new : List Activity}

-- Nothing but light frames above a heavy one.
def Shaped (frames : List Activity) : Prop :=
  frames.Pairwise fun upper lower => upper.role.isLight ∨ lower.role.isHeavy = false

structure Locked (m : Machine) : Prop where
  shaped : ∀ t, Shaped (m.frames t)
  held : ∀ t, ∀ f ∈ m.frames t, ∀ s, f.role = .freeing s → (m.custody s).lock = some t

theorem Shaped.of_outer (outer : ∀ f ∈ new, f.role = .outer) : Shaped new := by
  refine List.pairwise_iff_forall_sublist.2 fun {upper lower} within => .inr ?_
  rw [outer lower (within.subset (by simp))]; rfl

theorem Shaped.of_light (light : ∀ f ∈ new, f.role.isLight) : Shaped new :=
  List.pairwise_iff_forall_sublist.2 fun {upper _} within => .inl (light upper (within.subset (by simp)))

theorem Shaped.concat (light : ∀ f ∈ new, f.role.isLight) (f : Activity) : Shaped (new ++ [f]) :=
  List.pairwise_append.2 ⟨Shaped.of_light light, List.pairwise_singleton .., fun g member _ _ =>
    .inl (light g member)⟩

theorem Shaped.of_loose (loose : IsLoose new) : Shaped new := by
  rcases loose with ⟨outer, _⟩ | ⟨p, grace, rfl⟩
  · exact .of_outer outer
  · exact List.pairwise_singleton ..

theorem pairwise_replace {loose : Activity → Prop}
    (shaped : (a :: rest).Pairwise fun upper lower => upper.role.isLight ∨ loose lower)
    (own : new.Pairwise fun upper lower => upper.role.isLight ∨ loose lower)
    (light : a.role.isLight → ∀ f ∈ new, f.role.isLight) :
    (new ++ rest).Pairwise fun upper lower => upper.role.isLight ∨ loose lower := by
  obtain ⟨above, below⟩ := List.pairwise_cons.1 shaped
  refine List.pairwise_append.2 ⟨own, below, fun upper added lower old => ?_⟩
  exact (above lower old).imp_left fun top => light top upper added

theorem Shaped.replace (shaped : Shaped (a :: rest)) (own : Shaped new)
    (light : a.role.isLight → ∀ f ∈ new, f.role.isLight) : Shaped (new ++ rest) :=
  pairwise_replace shaped own light

theorem light_inner {inner : List Activity} (roles : ∀ f ∈ inner, f.role = .inner) :
    ∀ f ∈ inner, f.role.isLight := by
  intro f member; rw [roles f member]; rfl

theorem Move.shaped (move : Move m t a held new) :
    Shaped new ∧ (a.role.isLight → ∀ f ∈ new, f.role.isLight) := by
  cases move with
  | plain kind _ roles =>
    refine ⟨List.pairwise_iff_forall_sublist.2 fun {_ lower} within => .inr ?_, fun light f member => ?_⟩
    · rcases roles lower (within.subset (by simp)) with inner | ⟨outer, _⟩
      · rw [inner]; rfl
      · rw [outer]; rfl
    · have inner : a.role = .inner := by
        rcases kind with inner | bound | outer
        · exact inner
        · rw [bound] at light; cases light
        · rw [outer] at light; cases light
      rcases roles f member with still | ⟨_, no⟩
      · rw [still]; rfl
      · exact absurd inner no
  | finishing _ still _ => exact ⟨List.pairwise_singleton .., fun _ f member => by
      rw [List.mem_singleton.1 member, still]; rfl⟩
  | finished => exact ⟨List.pairwise_singleton .., fun _ f member => by
      rw [List.mem_singleton.1 member]; rfl⟩
  | awaited | vacant | locked | closed =>
    exact ⟨List.pairwise_singleton .., fun light => absurd light Bool.false_ne_true⟩
  | vacated _ _ _ _ inner | outlived _ _ _ _ inner | begun _ _ inner =>
    exact ⟨.concat (light_inner inner) _, fun light => absurd light Bool.false_ne_true⟩
  | refused kind _ inner =>
    refine ⟨.concat (light_inner inner) _, fun light => ?_⟩
    rcases kind with rfl | rfl <;> cases light
  | stopped =>
    refine ⟨?_, fun light => absurd light Bool.false_ne_true⟩
    show Shaped ([_, _] ++ [_])
    exact .concat (by simp [Activity.role, Role.isLight]) _
  | released freeing _ _ outer =>
    refine ⟨.of_outer outer, fun light => ?_⟩
    rw [freeing] at light; cases light
  | taken _ _ stops inner =>
    refine ⟨?_, fun light => absurd light Bool.false_ne_true⟩
    rw [← List.append_assoc]
    refine .concat (fun f member => ?_) _
    rcases List.mem_append.1 member with stop | inside
    · rcases stops with ⟨_, rfl⟩ | ⟨slot, grace, _, rfl⟩
      · cases stop
      · rw [List.mem_singleton.1 stop]; rfl
    · exact light_inner inner f inside

theorem Move.lock (move : Move m t a held new) (s : SessionId) :
    (held s).lock = (m.custody s).lock ∨
    (m.custody s).lock = none ∧ (held s).lock = some t ∨
    a.role = .freeing s ∧ ∀ f ∈ new, f.role = .outer := by
  have elsewhere : ∀ {r : SessionId} {custody : Custody}, held = Function.update m.custody r custody →
      (s = r → custody.lock = (m.custody r).lock ∨
        (m.custody r).lock = none ∧ custody.lock = some t ∨
        a.role = .freeing r ∧ ∀ f ∈ new, f.role = .outer) →
      (held s).lock = (m.custody s).lock ∨ (m.custody s).lock = none ∧ (held s).lock = some t ∨
        a.role = .freeing s ∧ ∀ f ∈ new, f.role = .outer := by
    intro r custody changed here
    by_cases same : s = r
    · subst s; rw [changed, Function.update_self]; exact here rfl
    · rw [changed, Function.update_of_ne same]; exact .inl rfl
  cases move with
  | plain _ use _ =>
    obtain ⟨_, _, same⟩ := use.custody s
    exact .inl (by rw [same])
  | finishing _ _ same | finished _ _ same | awaited _ same | refused _ same _ =>
    exact .inl (by rw [same])
  | vacated free _ _ changed | vacant free _ changed | outlived free _ _ changed
  | locked free _ changed => exact elsewhere changed fun _ => .inr (.inl ⟨free, rfl⟩)
  | begun _ changed | stopped _ _ changed | closed changed | taken _ changed =>
    exact elsewhere changed fun _ => .inl rfl
  | released freeing _ changed outer =>
    exact elsewhere changed fun _ => .inr (.inr ⟨freeing, outer⟩)

theorem Move.freeing (move : Move m t a held new) (member : f ∈ new) (part : f.role = .freeing s) :
    a.role = .freeing s ∧ (held s).lock = (m.custody s).lock ∨ (held s).lock = some t := by
  have last : ∀ {inner : List Activity} {g : Activity}, (∀ f ∈ inner, f.role = .inner) →
      f ∈ inner ++ [g] → f = g := by
    intro inner g light member
    rcases List.mem_append.1 member with inside | last
    · rw [light f inside] at part; cases part
    · exact List.mem_singleton.1 last
  cases move with
  | plain _ _ roles =>
    rcases roles f member with inner | ⟨outer, _⟩
    · rw [inner] at part; cases part
    · rw [outer] at part; cases part
  | finishing _ still _ =>
    rw [List.mem_singleton.1 member, still] at part; cases part
  | finished | awaited | closed => rw [List.mem_singleton.1 member] at part; cases part
  | vacated _ _ _ changed inner | outlived _ _ _ changed inner =>
    have top := last inner member
    subst f; cases part
    exact .inr (by rw [changed, Function.update_self])
  | vacant _ _ changed | locked _ _ changed =>
    rw [List.mem_singleton.1 member] at part; cases part
    exact .inr (by rw [changed, Function.update_self])
  | begun _ changed inner =>
    have top := last inner member
    subst f; cases part
    exact .inl ⟨rfl, by rw [changed, Function.update_self]⟩
  | refused kind same inner =>
    have top := last inner member
    subst f; cases part
    refine .inl ⟨?_, by rw [same]⟩
    rcases kind with rfl | rfl <;> rfl
  | stopped _ _ changed =>
    rcases List.mem_cons.1 member with rfl | later
    · cases part
    · have top := last (by simp [Activity.role]) (show _ ∈ [Activity.setState _ _] ++ [_] from later)
      subst f; cases part
      exact .inl ⟨rfl, by rw [changed, Function.update_self]⟩
  | released _ _ _ outer => rw [outer f member] at part; cases part
  | taken _ _ stops inner =>
    rcases List.mem_append.1 member with stop | later
    · rcases stops with ⟨_, rfl⟩ | ⟨slot, grace, _, rfl⟩
      · cases stop
      · rw [List.mem_singleton.1 stop] at part; cases part
    · have top := last inner later
      subst f; cases part

theorem Shaped.elsewhere (shaped : Shaped (m.frames u)) (elsewhere : Elsewhere m next u) :
    Shaped (next.frames u) := by
  rcases elsewhere with kept | ⟨_, loose, _⟩ | ⟨_, broken⟩
  · rw [kept]; exact shaped
  · exact .of_loose loose
  · rw [broken]; exact List.Pairwise.nil

-- Below a frame that gives a lock back nothing is heavy.
theorem Locked.below (locked : Locked m) (stack : m.frames t = a :: rest) (top : a.role = .freeing s)
    (member : f ∈ rest) : f.role.isHeavy = false := by
  have shaped := locked.shaped t
  rw [stack] at shaped
  rcases (List.pairwise_cons.1 shaped).1 f member with light | light
  · rw [top] at light; cases light
  · exact light

theorem Locked.turned (locked : Locked m) (turned : Turned m t a rest new next) : Locked next := by
  have top : ∀ s, a.role = .freeing s → (m.custody s).lock = some t :=
    locked.held t a (turned.stack ▸ List.mem_cons_self)
  refine ⟨fun u => ?_, fun u f member s part => ?_⟩
  · by_cases here : u = t
    · subst u
      rw [turned.replaced]
      have shaped := locked.shaped t
      rw [turned.stack] at shaped
      exact shaped.replace turned.move.shaped.1 turned.move.shaped.2
    · exact (locked.shaped u).elsewhere (turned.elsewhere u here)
  · rcases turned.old member (.inr ⟨s, part⟩) with ⟨rfl, added⟩ | ⟨old, below⟩
    · rcases turned.move.freeing added part with ⟨freeing, same⟩ | own
      · rw [same]; exact top s freeing
      · exact own
    · have mine := locked.held u f old s part
      rcases turned.move.lock s with same | ⟨free, _⟩ | ⟨freeing, _⟩
      · rw [same]; exact mine
      · rw [free] at mine; cases mine
      -- The task would hold two frames that give the same lock back.
      · have here : u = t := Option.some.inj (mine.symm.trans (top s freeing))
        have light := locked.below turned.stack freeing (below here)
        rw [part] at light; cases light

theorem Locked.started {after : AfterStart} (locked : Locked m)
    (started : Started m t s after rest next) : Locked next := by
  have lock : ∀ r, (next.custody r).lock = (m.custody r).lock := by
    intro r
    rw [started.custody]
    by_cases here : r = s
    · subst r; rw [Function.update_self]
    · rw [Function.update_of_ne here]
  refine ⟨fun u => ?_, fun u f member r part => ?_⟩
  · by_cases here : u = t
    · subst u
      obtain ⟨inner, light, replaced⟩ := started.replaced
      have shaped := locked.shaped t
      rw [started.stack] at shaped
      rw [replaced, ← List.singleton_append, ← List.append_assoc]
      exact shaped.replace (.concat (light_inner light) _) fun light => nomatch light
    · by_cases pump : u = m.tasks.length
      · subst u; rw [started.pump]; exact List.pairwise_singleton ..
      · by_cases awaits : u = m.tasks.length + 1
        · subst u; rw [started.awaitExit]; exact List.pairwise_singleton ..
        · rw [started.elsewhere u here pump awaits]; exact locked.shaped u
  · rw [lock]
    rcases started.old member (.inr ⟨r, part⟩) with ⟨rfl, rfl⟩ | rfl | ⟨old, _⟩
    · cases part
      exact locked.held u _ (started.stack ▸ List.mem_cons_self) s rfl
    · cases part
    · exact locked.held u f old r part

theorem Locked.transition (locked : Locked m) (transition : Transition m event next) :
    Locked next := by
  cases transition with
  | turned _ turned => exact locked.turned turned
  | started _ started => exact locked.started started
  | ambient _ ambient =>
    refine ⟨fun u => (locked.shaped u).elsewhere (ambient.elsewhere u), fun u f member s part => ?_⟩
    rw [ambient.custody]
    exact locked.held u f ((ambient.elsewhere u).old member (.inr ⟨s, part⟩)) s part

theorem frames_initial (u : TaskId) : initial.frames u = [] :=
  frames_of_length_le (Nat.zero_le u)

theorem locked_initial : Locked initial := by
  refine ⟨fun u => ?_, fun u f member => ?_⟩
  · rw [frames_initial]; exact List.Pairwise.nil
  · rw [frames_initial] at member; cases member

end Machine
end LanguageRelay
