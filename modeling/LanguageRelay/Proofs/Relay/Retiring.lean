import LanguageRelay.Proofs.Relay.Runs
namespace LanguageRelay.Machine
variable {m next : Machine} {setup : Setup} {event : Event} {events : List Event} {t u : TaskId}
  {s : SessionId} {p : ServerId} {a f : Activity} {held : SessionId → Custody}
  {rest new : List Activity}

def Retires (m : Machine) (s : SessionId) (u : TaskId) : Prop :=
  .unlock s ∈ m.frames u ∧ ∃ f ∈ m.frames u, ∃ p, f.role = .finishing p

def TakesIdle (m : Machine) (s : SessionId) (u : TaskId) : Prop :=
  (∃ rest, m.frames u = .teardownUnlessUsed s :: rest) ∧ (m.custody s).subscribers = [] ∧
    (m.custody s).slot ≠ none

-- A live server is in its slot, or a task sees it to its end and then gives the lock back or clears
-- the session.
def Guarded (m : Machine) : Prop := ∀ s p, m.Lives s p →
  (∃ slot, (m.custody s).slot = some slot ∧ slot.server = p) ∨
  ∃ u, ∃ f ∈ m.frames u, f.role = .finishing p ∧ (.unlock s ∈ m.frames u ∨ .clear s ∈ m.frames u)

theorem Move.unlocks (move : Move m t a held new) (member : .unlock s ∈ new) :
    (a = .teardownUnlessUsed s ∧ (m.custody s).subscribers = [] ∧ (m.custody s).slot ≠ none) ∨
    a.role.isLight = false ∧ ∀ f ∈ new, ∀ p, f.role ≠ .finishing p := by
  cases move with
  | plain _ _ roles => rcases roles _ member with inner | ⟨outer, _⟩ <;> simp [Activity.role] at *
  | finishing _ still => rw [← List.mem_singleton.1 member] at still; cases still
  | finished | awaited | vacant | locked | closed => simp at member
  | vacated _ _ _ _ inner =>
    refine .inr ⟨rfl, fun f member p => ?_⟩
    rcases List.mem_append.1 member with inside | last
    · rw [inner f inside]; simp
    · rw [List.mem_singleton.1 last]; simp [Activity.role]
  | outlived _ _ _ _ inner | begun _ _ inner | refused _ _ inner =>
    rcases List.mem_append.1 member with inside | last
    · cases inner _ inside
    · cases List.mem_singleton.1 last
  | stopped unused occupied =>
    obtain rfl : s = _ := by simpa using member
    exact .inl ⟨rfl, unused, by rw [occupied]; simp⟩
  | released _ _ _ outer => cases outer _ member
  | taken _ _ stops inner =>
    rcases List.mem_append.1 member with stop | later
    · rcases stops with ⟨_, rfl⟩ | ⟨slot, grace, _, rfl⟩
      · cases stop
      · cases List.mem_singleton.1 stop
    · rcases List.mem_append.1 later with inside | last
      · cases inner _ inside
      · cases List.mem_singleton.1 last

theorem Move.finishes (move : Move m t a held new) (member : f ∈ new) (part : f.role = .finishing p) :
    a.role = .finishing p ∨ a.role.isLight = false := by
  cases move with
  | plain _ _ roles => rcases roles _ member with inner | ⟨outer, _⟩ <;> simp_all
  | finishing top still =>
    rw [List.mem_singleton.1 member, still] at part
    exact .inl (top.trans part)
  | finished | awaited | vacant | locked | closed =>
    rw [List.mem_singleton.1 member] at part; cases part
  | released freeing => rw [freeing]; exact .inr rfl
  | refused kind => rcases kind with rfl | rfl <;> exact .inr rfl
  | _ => exact .inr rfl

-- A task that retires a server did so before, or has just taken the server from a session that nobody
-- uses.
theorem Retires.earlier (retires : next.Retires s u) (locked : Locked m)
    (transition : Transition m event next) :
    m.Retires s u ∨ event.task? = some u ∧ m.TakesIdle s u := by
  obtain ⟨unlock, f, member, p, part⟩ := retires
  have elsewhere : Elsewhere m next u → m.Retires s u := by
    rintro (kept | ⟨_, ⟨outer, _⟩ | ⟨q, grace, stops⟩, _⟩ | ⟨_, broken⟩)
    · rw [kept] at unlock member
      exact ⟨unlock, f, member, p, part⟩
    · cases outer _ unlock
    · rw [stops] at unlock
      cases List.mem_singleton.1 unlock
    · rw [broken] at unlock; cases unlock
  cases transition with
  | @turned t a rest new step turned =>
    by_cases here : u = t
    · subst u
      have shaped := locked.shaped t
      rw [turned.stack] at shaped
      -- Only light frames stand above one that sees a server end or gives a lock back.
      have light : ∀ g ∈ rest, g.role.isHeavy → a.role.isLight := by
        intro g under heavy
        rcases (List.pairwise_cons.1 shaped).1 g under with light | loose
        · exact light
        · rw [loose] at heavy; cases heavy
      have top : a ∈ m.frames t := turned.stack ▸ List.mem_cons_self
      have below : ∀ {g}, g ∈ rest → g ∈ m.frames t := by
        intro g under
        rw [turned.stack]; exact List.mem_cons_of_mem _ under
      rw [turned.replaced] at unlock member
      rcases List.mem_append.1 unlock with added | under
      · rcases turned.move.unlocks added with ⟨rfl, unused, occupied⟩ | ⟨heavy, none⟩
        · exact .inr ⟨step, ⟨rest, turned.stack⟩, unused, occupied⟩
        · rcases List.mem_append.1 member with fresh | old
          · exact absurd part (none f fresh p)
          · rw [light f old (by rw [part]; rfl)] at heavy; cases heavy
      · rcases List.mem_append.1 member with fresh | old
        · rcases turned.move.finishes fresh part with same | heavy
          · exact .inl ⟨below under, a, top, p, same⟩
          · rw [light _ under rfl] at heavy; cases heavy
        · exact .inl ⟨below under, f, below old, p, part⟩
    · exact .inl (elsewhere (turned.elsewhere u here))
  | @started t r after rest launch started =>
    rcases started.old unlock (.inr ⟨s, rfl⟩) with ⟨same, _⟩ | same | ⟨old, under⟩
    · cases same
    · cases same
    · by_cases here : u = t
      · have loose := locked.below started.stack rfl (under here)
        cases loose
      · left
        have there := lt_of_mem_frames old
        rw [started.elsewhere u here (Nat.ne_of_lt there)
          (Nat.ne_of_lt (Nat.lt_succ_of_lt there))] at member
        exact ⟨old, f, member, p, part⟩
  | ambient _ ambient => exact .inl (elsewhere (ambient.elsewhere u))

theorem Locked.not_retires (locked : Locked m) (free : (m.custody s).lock = none) :
    ¬ m.Retires s u := by
  rintro ⟨unlock, _⟩
  have mine := locked.held u _ unlock s rfl
  rw [free] at mine; cases mine

theorem Guarded.turned (guarded : Guarded m) (accounted : Accounted m) (locked : Locked m)
    (turned : Turned m t a rest new next) : Guarded next := by
  intro s p lives
  have lives := (Lives.turned turned).1 lives
  have alive : (m.fate p).exit.isSome → False := fun ended => accounted.gone p ended lives.2
  have top : a ∈ m.frames t := turned.stack ▸ List.mem_cons_self
  have into : ∀ {f}, f ∈ new → f ∈ next.frames t := by
    intro f member
    rw [turned.replaced]; exact List.mem_append_left _ member
  rcases guarded s p lives with ⟨slot, found, rfl⟩ | ⟨u, f, member, part, last⟩
  · rcases turned.move.slot s with same | ⟨_, left⟩
    · exact .inl ⟨slot, same.trans found, rfl⟩
    · rcases left slot found with ended | ⟨exit, rfl⟩ | ⟨f, added, part, why⟩
      · exact (alive ended).elim
      · exact (alive (accounted.vacates t s _ exit slot top found rfl)).elim
      · refine .inr ⟨t, f, into added, part, ?_⟩
        rcases why with ⟨_, clear⟩ | unlock
        · exact .inr (into clear)
        · exact .inl (into unlock)
  · rcases turned.finishing member part with ⟨g, after, still⟩ | ended
    · refine .inr ⟨u, g, after, still, ?_⟩
      exact last.imp
        (fun unlock => turned.beneath locked member part unlock rfl fun k same => nomatch same)
        fun clear => turned.beneath locked member part clear rfl fun k same => nomatch same
    · exact (alive ended).elim

theorem Guarded.started {after : AfterStart} (guarded : Guarded m) (accounted : Accounted m)
    (started : Started m t s after rest next) : Guarded next := by
  have kept {u} {f : Activity} (member : f ∈ m.frames u) (part : f ≠ .spawn s after) :
      f ∈ next.frames u :=
    (started.kept member).resolve_left fun both => part both.1
  intro r p lives
  rcases started.lives.1 lives with old | ⟨rfl, rfl⟩
  · rcases guarded r p old with ⟨slot, found, rfl⟩ | ⟨u, f, member, part, last⟩
    · rcases update_cases started.custody r with ⟨rfl, _⟩ | ⟨_, same⟩
      · have top : .spawn r after ∈ m.frames t := started.stack ▸ List.mem_cons_self
        exact absurd old (accounted.spawns t r after top _)
      · exact .inl ⟨slot, by rw [same]; exact found, rfl⟩
    · refine .inr ⟨u, f, kept member (by rintro rfl; cases part), part, ?_⟩
      exact last.imp (fun unlock => kept unlock nofun) fun clear => kept clear nofun
  · rcases update_cases started.custody r with ⟨_, same⟩ | ⟨elsewhere, _⟩
    · exact .inl ⟨_, by rw [same], rfl⟩
    · exact absurd rfl elsewhere

theorem Guarded.ambient (guarded : Guarded m) (ambient : Ambient m next) : Guarded next := by
  intro s p lives
  rcases guarded s p (Lives.ambient ambient lives) with ⟨slot, found, rfl⟩ | ⟨u, f, member, part, last⟩
  · exact .inl ⟨slot, by rw [ambient.custody]; exact found, rfl⟩
  · have kept := fun {g} => (ambient.elsewhere u).kept (f := g)
    refine .inr ⟨u, f, kept member (by rintro k rfl; cases part), part, ?_⟩
    exact last.imp (fun unlock => kept unlock nofun) fun clear => kept clear nofun

theorem Guarded.advance (guarded : Guarded m) (sound : Sound m)
    (moved : m.advance setup event = some next) : Guarded next := by
  cases (advance_transition sound.present moved).1 with
  | turned _ turned => exact guarded.turned sound.accounted sound.locked turned
  | started _ started => exact guarded.started sound.accounted started
  | ambient _ ambient => exact guarded.ambient ambient

theorem Guarded.runs (ran : initial.runs setup events = some m) : Guarded m :=
  sound_initial.induction (motive := fun _ now => Guarded now) ran (fun _ _ lives => nomatch lives.1)
    fun _ _ _ _ sound moved guarded => guarded.advance sound moved

end LanguageRelay.Machine
