import LanguageRelay.Proofs.Relay.Clock
import LanguageRelay.Proofs.Relay.Locks
namespace LanguageRelay.Machine
variable {m next : Machine} {setup : Setup} {event : Event} {t u : TaskId} {s r : SessionId}
  {p q : ServerId} {a f : Activity} {held : SessionId → Custody} {rest new : List Activity}

-- The session `s` has started `p`, whose child has not ended.
def Lives (m : Machine) (s : SessionId) (p : ServerId) : Prop :=
  (m.fate p).session = some s ∧ (m.fate p).child = .alive

-- The frames that wait for the end of a server, with the start that it came from.
def Watches (s : SessionId) (generation : Nat) : Activity → Prop
  | .awaitExit r g _ | .vacate r g _ => r = s ∧ g = generation
  | _ => False

-- A live server is accounted for as long as it is in the slot or on its way to its end.
def Kept (m : Machine) (s : SessionId) (p : ServerId) : Prop :=
  (∃ slot, (m.custody s).slot = some slot ∧ slot.server = p) ∨
  ∃ u, ∃ f ∈ m.frames u, f.role = .finishing p ∧
    ((m.custody s).closed = true ∨ .unlock s ∈ m.frames u)

-- Whoever holds the lock of an open session with an empty slot finds nothing alive.
structure Accounted (m : Machine) : Prop where
  gone : ∀ p, (m.fate p).exit.isSome → (m.fate p).child ≠ .alive
  owned : ∀ s slot, (m.custody s).slot = some slot → (m.fate slot.server).session = some s
  closing : ∀ u s, .takeSlot s ∈ m.frames u → (m.custody s).closed = true
  begins : ∀ u s after, .begin s after ∈ m.frames u →
    (m.custody s).closed = true ∨ ∀ p, ¬ m.Lives s p
  spawns : ∀ u s after, .spawn s after ∈ m.frames u → ∀ p, ¬ m.Lives s p
  earlier : ∀ u, ∀ f ∈ m.frames u, ∀ s g, Watches s g f → g ≤ (m.custody s).generation ∧
    ∀ v after, .spawn s after ∈ m.frames v → g < (m.custody s).generation
  awaits : ∀ u s g p slot, .awaitExit s g p ∈ m.frames u → (m.custody s).slot = some slot →
    slot.generation = g → slot.server = p
  vacates : ∀ u s g exit slot, .vacate s g exit ∈ m.frames u → (m.custody s).slot = some slot →
    slot.generation = g → (m.fate slot.server).exit.isSome
  kept : ∀ s p, m.Lives s p → m.Kept s p
  single : ∀ s p q, m.Lives s p → m.Lives s q → p = q

theorem update_cases {base : SessionId → Custody} {custody : Custody}
    (changed : held = Function.update base r custody) (s : SessionId) :
    s = r ∧ held s = custody ∨ s ≠ r ∧ held s = base s := by
  by_cases here : s = r
  · exact .inl ⟨here, by rw [changed, here, Function.update_self]⟩
  · exact .inr ⟨here, by rw [changed, Function.update_of_ne here]⟩

theorem Move.forward (move : Move m t a held new) (s : SessionId) :
    ((m.custody s).closed = true → (held s).closed = true) ∧
    (m.custody s).generation ≤ (held s).generation := by
  have still : held s = m.custody s → ((m.custody s).closed = true → (held s).closed = true) ∧
      (m.custody s).generation ≤ (held s).generation := fun same => by rw [same]; exact ⟨id, Nat.le_refl _⟩
  cases move with
  | plain _ use _ =>
    obtain ⟨_, _, same⟩ := use.custody s
    rw [same]; exact ⟨id, Nat.le_refl _⟩
  | finishing _ _ same | finished _ _ same | awaited _ same | refused _ same _ =>
    exact still (congrFun same s)
  | vacated _ _ _ changed | vacant _ _ changed | outlived _ _ _ changed | locked _ _ changed
  | stopped _ _ changed | taken _ changed | released _ _ changed =>
    rcases update_cases changed s with ⟨rfl, here⟩ | ⟨_, same⟩
    · rw [here]; exact ⟨id, Nat.le_refl _⟩
    · exact still same
  | begun _ changed =>
    rcases update_cases changed s with ⟨rfl, here⟩ | ⟨_, same⟩
    · rw [here]; exact ⟨id, Nat.le_succ _⟩
    · exact still same
  | closed changed =>
    rcases update_cases changed s with ⟨rfl, here⟩ | ⟨_, same⟩
    · rw [here]; exact ⟨fun _ => rfl, Nat.le_refl _⟩
    · exact still same

theorem Watches.role {generation : Nat} (watches : Watches s generation f) : f.role = .bound := by
  cases f <;> first | rfl | exact watches.elim

theorem Move.slot (move : Move m t a held new) (s : SessionId) :
    (held s).slot = (m.custody s).slot ∨
    (held s).slot = none ∧ ∀ slot, (m.custody s).slot = some slot →
      (m.fate slot.server).exit.isSome ∨ (∃ exit, a = .vacate s slot.generation exit) ∨
      ∃ f ∈ new, f.role = .finishing slot.server ∧
        (a = .takeSlot s ∧ .clear s ∈ new ∨ .unlock s ∈ new) := by
  cases move with
  | plain _ use _ =>
    obtain ⟨_, _, same⟩ := use.custody s
    exact .inl (by rw [same])
  | finishing _ _ same | finished _ _ same | awaited _ same | refused _ same _ =>
    exact .inl (by rw [same])
  | vacant _ _ changed | locked _ _ changed | begun _ changed | released _ _ changed
  | closed changed =>
    rcases update_cases changed s with ⟨rfl, here⟩ | ⟨_, same⟩
    · exact .inl (by rw [here])
    · exact .inl (by rw [same])
  | vacated _ occupied own changed _ =>
    rcases update_cases changed s with ⟨rfl, here⟩ | ⟨_, same⟩
    · refine .inr ⟨by rw [here], fun slot found => .inr (.inl ?_)⟩
      rw [occupied] at found; cases found
      rw [own]; exact ⟨_, rfl⟩
    · exact .inl (by rw [same])
  | outlived _ occupied ended changed _ =>
    rcases update_cases changed s with ⟨rfl, here⟩ | ⟨_, same⟩
    · refine .inr ⟨by rw [here], fun slot found => .inl ?_⟩
      rw [occupied] at found; cases found
      rw [ended]; rfl
    · exact .inl (by rw [same])
  | stopped _ occupied changed =>
    rcases update_cases changed s with ⟨rfl, here⟩ | ⟨_, same⟩
    · refine .inr ⟨by rw [here], fun slot found => .inr (.inr ?_)⟩
      rw [occupied] at found; cases found
      exact ⟨_, List.mem_cons_self, rfl, .inr (by simp)⟩
    · exact .inl (by rw [same])
  | taken _ changed stops _ =>
    rcases update_cases changed s with ⟨rfl, here⟩ | ⟨_, same⟩
    · refine .inr ⟨by rw [here], fun slot found => .inr (.inr ?_)⟩
      rcases stops with ⟨empty, _⟩ | ⟨_, _, occupied, rfl⟩
      · rw [empty] at found; cases found
      · rw [occupied] at found; cases found
        exact ⟨_, List.mem_cons_self, rfl, .inl ⟨rfl, by simp⟩⟩
    · exact .inl (by rw [same])

def Comes (m : Machine) (a : Activity) (held : SessionId → Custody) : Activity → Prop
  | .takeSlot s => (held s).closed = true
  | .begin s _ => (m.custody s).lock = none ∧
      ∀ slot, (m.custody s).slot = some slot → (m.fate slot.server).exit.isSome
  | .spawn s after => a = .begin s after ∧ (m.custody s).closed = false ∧
      (m.custody s).generation < (held s).generation
  | .awaitExit _ _ _ => False
  | .vacate s g _ => ∃ p, a = .awaitExit s g p ∧ (m.fate p).exit.isSome
  | .clear s => a = .takeSlot s ∧ (m.custody s).lock = none ∧ (held s).slot = none
  | _ => True

theorem Comes.of_role (free : f.role ≠ .bound ∧ ∀ s, f.role ≠ .freeing s) : Comes m a held f := by
  cases f <;> simp_all [Comes, Activity.role]

theorem Comes.inner {inner : List Activity} {last : Activity} (light : ∀ f ∈ inner, f.role = .inner)
    (comes : Comes m a held last) : ∀ f ∈ inner ++ [last], Comes m a held f := by
  intro f member
  rcases List.mem_append.1 member with inside | top
  · exact .of_role (by rw [light f inside]; simp)
  · rw [List.mem_singleton.1 top]; exact comes

theorem Move.comes (move : Move m t a held new) : ∀ f ∈ new, Comes m a held f := by
  cases move with
  | plain _ _ roles =>
    refine fun f member => .of_role ?_
    rcases roles f member with inner | ⟨outer, _⟩
    · rw [inner]; simp
    · rw [outer]; simp
  | finishing _ still _ => exact fun f member => .of_role (by rw [List.mem_singleton.1 member, still]; simp)
  | finished | locked =>
    exact fun f member => by rw [List.mem_singleton.1 member]; trivial
  | awaited ended _ =>
    exact fun f member => by
      rw [List.mem_singleton.1 member]; exact ⟨_, rfl, by rw [ended]; rfl⟩
  | vacated _ _ _ _ inner => exact .inner inner trivial
  | vacant free empty _ =>
    exact fun f member => by
      rw [List.mem_singleton.1 member]
      exact ⟨free, fun slot found => by rw [empty] at found; cases found⟩
  | outlived free occupied ended _ inner =>
    refine .inner inner ⟨free, fun slot found => ?_⟩
    rw [occupied] at found; cases found
    rw [ended]; rfl
  | begun isOpen changed inner =>
    refine .inner inner ⟨rfl, isOpen, ?_⟩
    rw [changed, Function.update_self]; exact Nat.lt_succ_self _
  | refused _ _ inner => exact .inner inner trivial
  | stopped => simp [Comes]
  | released _ _ _ outer => exact fun f member => .of_role (by rw [outer f member]; simp)
  | closed changed =>
    exact fun f member => by
      rw [List.mem_singleton.1 member]
      show (held _).closed = true
      rw [changed, Function.update_self]
  | taken free changed stops inner =>
    intro f member
    rcases List.mem_append.1 member with stop | later
    · rcases stops with ⟨_, rfl⟩ | ⟨slot, grace, _, rfl⟩
      · cases stop
      · rw [List.mem_singleton.1 stop]; trivial
    · refine Comes.inner inner ?_ f later
      exact ⟨rfl, free, by rw [changed, Function.update_self]⟩

theorem Move.ending (move : Move m t a held new) (part : a.role = .finishing p) :
    (∃ f ∈ new, f.role = .finishing p) ∨ (m.fate p).exit.isSome := by
  cases move with
  | plain kind _ _ => rcases kind with kind | kind | kind <;> (rw [kind] at part; cases part)
  | finishing top still _ =>
    rw [top] at part; cases part
    exact .inl ⟨_, List.mem_singleton.2 rfl, still⟩
  | finished top ended _ =>
    rw [top] at part; cases part
    exact .inr (by rw [ended]; rfl)
  | refused kind _ _ => rcases kind with rfl | rfl <;> cases part
  | released freeing _ _ _ => rw [freeing] at part; cases part
  | _ => cases part

-- Whoever holds the lock of an open session whose server has ended finds nothing alive.
theorem Accounted.none_lives (accounted : Accounted m) (locked : Locked m)
    (free : (m.custody s).lock = none)
    (ended : ∀ slot, (m.custody s).slot = some slot → (m.fate slot.server).exit.isSome) :
    (m.custody s).closed = true ∨ ∀ p, ¬ m.Lives s p := by
  by_cases closed : (m.custody s).closed = true
  · exact .inl closed
  · refine .inr fun p lives => ?_
    rcases accounted.kept s p lives with ⟨slot, found, rfl⟩ | ⟨u, _, _, _, done | unlock⟩
    · exact accounted.gone _ (ended slot found) lives.2
    · exact closed done
    · have mine := locked.held u _ unlock s rfl
      rw [free] at mine; cases mine

theorem Lives.turned (turned : Turned m t a rest new next) : next.Lives s p ↔ m.Lives s p := by
  simp only [Lives, turned.fate]

theorem Turned.finishing (turned : Turned m t a rest new next) (member : f ∈ m.frames u)
    (part : f.role = .finishing p) :
    (∃ g ∈ next.frames u, g.role = .finishing p) ∨ (m.fate p).exit.isSome := by
  rcases turned.kept member (by rintro k rfl; cases part) with ⟨rfl, rfl⟩ | after
  · refine (turned.move.ending part).imp_left fun ⟨g, added, on⟩ => ⟨g, ?_, on⟩
    rw [turned.replaced]; exact List.mem_append_left _ added
  · exact .inl ⟨f, after, part⟩

-- Meanwhile what is to follow stays beneath.
theorem Turned.beneath {g : Activity} (locked : Locked m) (turned : Turned m t a rest new next)
    (member : f ∈ m.frames u) (part : f.role = .finishing p) (below : g ∈ m.frames u)
    (heavy : g.role.isLight = false) (firm : ∀ k, g ≠ .forward k) : g ∈ next.frames u := by
  rcases turned.kept below firm with ⟨rfl, rfl⟩ | after
  · have shaped := locked.shaped u
    rw [turned.stack] at shaped member
    rcases List.mem_cons.1 member with rfl | under
    · rw [part] at heavy; cases heavy
    · rcases (List.pairwise_cons.1 shaped).1 f under with light | loose
      · rw [heavy] at light; cases light
      · rw [part] at loose; cases loose
  · exact after

theorem Kept.turned (accounted : Accounted m) (locked : Locked m)
    (turned : Turned m t a rest new next) (lives : m.Lives s p) (kept : m.Kept s p) :
    next.Kept s p := by
  have alive : (m.fate p).exit.isSome → False := fun ended => accounted.gone p ended lives.2
  have top : a ∈ m.frames t := turned.stack ▸ List.mem_cons_self
  have into : ∀ f ∈ new, f ∈ next.frames t := by
    intro f member
    rw [turned.replaced]; exact List.mem_append_left _ member
  have closed := (turned.move.forward s).1
  rcases kept with ⟨slot, found, rfl⟩ | ⟨u, f, member, part, why⟩
  · rcases turned.move.slot s with same | ⟨empty, left⟩
    · exact .inl ⟨slot, same.trans found, rfl⟩
    · rcases left slot found with ended | ⟨exit, rfl⟩ | ⟨f, added, part, why⟩
      · exact (alive ended).elim
      · exact (alive (accounted.vacates t s _ exit slot top found rfl)).elim
      · refine .inr ⟨t, f, into f added, part, ?_⟩
        rcases why with ⟨rfl, _⟩ | unlock
        · exact .inl (closed (accounted.closing t s top))
        · exact .inr (into _ unlock)
  · rcases turned.finishing member part with ⟨g, after, still⟩ | ended
    · refine .inr ⟨u, g, after, still, why.imp closed fun unlock => ?_⟩
      exact turned.beneath locked member part unlock rfl fun k same => nomatch same
    · exact (alive ended).elim

theorem Accounted.turned (accounted : Accounted m) (locked : Locked m)
    (turned : Turned m t a rest new next) : Accounted next := by
  have top : a ∈ m.frames t := turned.stack ▸ List.mem_cons_self
  have closed := fun s => (turned.move.forward s).1
  have slot : ∀ {s slot}, (next.custody s).slot = some slot → (m.custody s).slot = some slot := by
    intro s slot found
    rcases turned.move.slot s with same | ⟨empty, _⟩
    · rw [← same]; exact found
    · rw [empty] at found; cases found
  -- A frame with a part to play is an old one or a new one, of which `Comes` tells.
  have old : ∀ {u : TaskId} {f : Activity}, f ∈ next.frames u →
      (f.role = .bound ∨ ∃ s, f.role = .freeing s) → Comes m a next.custody f ∨ f ∈ m.frames u := by
    intro u f member part
    rcases turned.old member part with ⟨_, added⟩ | ⟨old, _⟩
    · exact .inl (turned.move.comes f added)
    · exact .inr old
  refine ⟨fun p => turned.fate ▸ accounted.gone p,
    fun s found occupied => turned.fate ▸ accounted.owned s found (slot occupied),
    fun u s member => ?_, fun u s after member => ?_, fun u s after member p => ?_, fun u f member s g watches => ?_,
    fun u s g p found member occupied => ?_, fun u s g exit found member occupied own => ?_,
    fun s p lives => ?_, fun s p q first second => ?_⟩
  · rcases old member (.inl rfl) with comes | before
    · exact comes
    · exact closed s (accounted.closing u s before)
  · simp only [Lives.turned turned]
    refine Or.imp_left (closed s) ?_
    rcases old member (.inr ⟨s, rfl⟩) with ⟨free, ended⟩ | before
    · exact accounted.none_lives locked free ended
    · exact accounted.begins u s after before
  · rw [Lives.turned turned]
    rcases old member (.inr ⟨s, rfl⟩) with ⟨rfl, isOpen, _⟩ | before
    · rcases accounted.begins t s after top with done | none
      · rw [isOpen] at done; cases done
      · exact none p
    · exact accounted.spawns u s after before p
  · obtain ⟨v, h, before, watched⟩ : ∃ v, ∃ h ∈ m.frames v, Watches s g h := by
      rcases old member (.inl watches.role) with comes | before
      · cases f with
        | vacate r k exit =>
          obtain ⟨p, rfl, _⟩ := comes
          exact ⟨t, _, top, watches⟩
        | awaitExit => exact comes.elim
        | _ => exact watches.elim
      · exact ⟨u, f, before, watches⟩
    obtain ⟨most, less⟩ := accounted.earlier v h before s g watched
    have counted := (turned.move.forward s).2
    refine ⟨Nat.le_trans most counted, fun w after spawn => ?_⟩
    rcases old spawn (.inr ⟨s, rfl⟩) with ⟨_, _, more⟩ | before
    · exact Nat.lt_of_le_of_lt most more
    · exact Nat.lt_of_lt_of_le (less w after before) counted
  · rcases old member (.inl rfl) with comes | before
    · exact comes.elim
    · exact accounted.awaits u s g p found before (slot occupied)
  · rw [turned.fate]
    rcases old member (.inl rfl) with ⟨p, rfl, ended⟩ | before
    · rw [accounted.awaits t s g p found top (slot occupied) own]; exact ended
    · exact accounted.vacates u s g exit found before (slot occupied) own
  · have lives := (Lives.turned turned).1 lives
    exact (accounted.kept s p lives).turned accounted locked turned lives
  · exact accounted.single s p q ((Lives.turned turned).1 first) ((Lives.turned turned).1 second)

theorem Started.lives {after : AfterStart} (started : Started m t s after rest next) :
    next.Lives r p ↔ m.Lives r p ∨ r = s ∧ p = m.servers.length := by
  unfold Lives
  rw [started.fate]
  by_cases here : p = m.servers.length
  · subst p
    rw [Function.update_self, fate_of_length_le (Nat.le_refl _)]
    simp [eq_comm]
  · rw [Function.update_of_ne here]; simp [here]

theorem Started.alone {after : AfterStart} (locked : Locked m)
    (started : Started m t s after rest next) (member : f ∈ next.frames u)
    (part : f.role = .freeing s) : f = .started s after m.servers.length := by
  rcases started.old member (.inr ⟨s, part⟩) with ⟨same, _⟩ | rfl | ⟨old, below⟩
  · exact same
  · cases part
  · have top := locked.held t _ (started.stack ▸ List.mem_cons_self) s rfl
    have here : u = t := Option.some.inj ((locked.held u f old s part).symm.trans top)
    have light := locked.below started.stack rfl (below here)
    rw [part] at light; cases light

theorem Started.counts {after : AfterStart} (started : Started m t s after rest next)
    (r : SessionId) : (next.custody r).closed = (m.custody r).closed ∧
      (next.custody r).generation = (m.custody r).generation := by
  rcases update_cases started.custody r with ⟨rfl, same⟩ | ⟨_, same⟩ <;> rw [same] <;>
    exact ⟨rfl, rfl⟩

theorem Started.exit {after : AfterStart} (started : Started m t s after rest next) (p : ServerId) :
    (next.fate p).exit = (m.fate p).exit := by
  rw [started.fate]
  by_cases here : p = m.servers.length
  · rw [here, Function.update_self, fate_of_length_le (Nat.le_refl _)]
  · rw [Function.update_of_ne here]

theorem Started.fate_of_exit {after : AfterStart} (started : Started m t s after rest next)
    (ended : (m.fate p).exit.isSome) : next.fate p = m.fate p := by
  rw [started.fate]
  refine Function.update_of_ne ?_ ..
  rintro rfl
  rw [fate_of_length_le (Nat.le_refl _)] at ended; cases ended

theorem Started.slot {after : AfterStart} {slot : Slot} (started : Started m t s after rest next)
    (found : (next.custody r).slot = some slot) :
    r = s ∧ slot = ⟨(m.custody s).generation, m.servers.length⟩ ∨
      r ≠ s ∧ (m.custody r).slot = some slot := by
  rcases update_cases started.custody r with ⟨rfl, same⟩ | ⟨elsewhere, same⟩
  · rw [same] at found; exact .inl ⟨rfl, (Option.some.inj found).symm⟩
  · rw [same] at found; exact .inr ⟨elsewhere, found⟩

theorem Started.watched {after : AfterStart} {g : Nat} (accounted : Accounted m)
    (started : Started m t s after rest next) (member : f ∈ next.frames u)
    (watches : Watches r g f) :
    f = .awaitExit s (m.custody s).generation m.servers.length ∨
      f ∈ m.frames u ∧ (r = s → g < (m.custody s).generation) := by
  rcases started.old member (.inl watches.role) with ⟨rfl, _⟩ | begun | ⟨old, _⟩
  · exact watches.elim
  · exact .inl begun
  · refine .inr ⟨old, ?_⟩
    rintro rfl
    have top : .spawn r after ∈ m.frames t := started.stack ▸ List.mem_cons_self
    exact (accounted.earlier u f old r g watches).2 t after top

theorem Started.freeing {after : AfterStart} (locked : Locked m)
    (started : Started m t s after rest next) (member : f ∈ next.frames u)
    (part : f.role = .freeing r) (new : f ≠ .started s after m.servers.length) :
    r ≠ s ∧ f ∈ m.frames u := by
  refine ⟨?_, ?_⟩
  · rintro rfl; exact new (started.alone locked member part)
  · rcases started.old member (.inr ⟨r, part⟩) with ⟨same, _⟩ | rfl | ⟨old, _⟩
    · exact absurd same new
    · cases part
    · exact old

theorem Started.lives_elsewhere {after : AfterStart} (started : Started m t s after rest next)
    (elsewhere : r ≠ s) (lives : next.Lives r p) : m.Lives r p := by
  rcases started.lives.1 lives with old | ⟨here, _⟩
  · exact old
  · exact absurd here elsewhere

theorem Kept.started {after : AfterStart} (kept : m.Kept r p)
    (started : Started m t s after rest next) (elsewhere : r ≠ s) : next.Kept r p := by
  rcases kept with ⟨found, occupied, rfl⟩ | ⟨u, f, member, part, why⟩
  · rcases update_cases started.custody r with ⟨here, _⟩ | ⟨_, same⟩
    · exact absurd here elsewhere
    · exact .inl ⟨found, by rw [same]; exact occupied, rfl⟩
  · rcases started.kept member with ⟨rfl, _⟩ | still
    · cases part
    · refine .inr ⟨u, f, still, part, ?_⟩
      rw [(started.counts r).1]
      refine why.imp_right fun unlock => ?_
      rcases started.kept unlock with ⟨same, _⟩ | still
      · cases same
      · exact still

theorem Accounted.started {after : AfterStart} (accounted : Accounted m) (locked : Locked m)
    (started : Started m t s after rest next) : Accounted next := by
  have top : .spawn s after ∈ m.frames t := started.stack ▸ List.mem_cons_self
  have none : ∀ p, ¬ m.Lives s p := accounted.spawns t s after top
  refine ⟨fun p ended => ?_, fun r found occupied => ?_, fun u r member => ?_,
    fun u r next member => ?_, fun u r next member p alive => ?_, fun u f member r g watches => ?_,
    fun u r g p found member occupied own => ?_, fun u r g ended found member occupied own => ?_,
    fun r p alive => ?_, fun r p q first second => ?_⟩
  · rw [started.exit] at ended
    rw [started.fate_of_exit ended]; exact accounted.gone p ended
  · rw [started.fate]
    rcases started.slot occupied with ⟨rfl, rfl⟩ | ⟨_, before⟩
    · rw [Function.update_self]
    · have mine := accounted.owned r found before
      rw [Function.update_of_ne]
      · exact mine
      · intro same; rw [same, fate_of_length_le (Nat.le_refl _)] at mine; cases mine
  · rw [(started.counts r).1]
    rcases started.old member (.inl rfl) with ⟨same, _⟩ | same | ⟨old, _⟩
    · cases same
    · cases same
    · exact accounted.closing u r old
  · obtain ⟨elsewhere, old⟩ := started.freeing locked member rfl (fun same => nomatch same)
    rw [(started.counts r).1]
    refine (accounted.begins u r next old).imp_right fun none p alive => ?_
    exact none p (started.lives_elsewhere elsewhere alive)
  · obtain ⟨elsewhere, old⟩ := started.freeing locked member rfl (fun same => nomatch same)
    exact accounted.spawns u r next old p (started.lives_elsewhere elsewhere alive)
  · rw [(started.counts r).2]
    refine ⟨?_, fun v next spawn => ?_⟩
    · rcases started.watched accounted member watches with rfl | ⟨old, _⟩
      · obtain ⟨rfl, rfl⟩ := watches; exact Nat.le_refl _
      · exact (accounted.earlier u f old r g watches).1
    · obtain ⟨elsewhere, spawn⟩ := started.freeing locked spawn rfl (fun same => nomatch same)
      rcases started.watched accounted member watches with rfl | ⟨old, _⟩
      · exact absurd watches.1.symm elsewhere
      · exact (accounted.earlier u f old r g watches).2 v next spawn
  · rcases started.slot occupied with ⟨rfl, rfl⟩ | ⟨elsewhere, before⟩
    · rcases started.watched accounted member ⟨rfl, rfl⟩ with same | ⟨_, less⟩
      · cases same; rfl
      · exact absurd own (Nat.ne_of_gt (less rfl))
    · rcases started.watched accounted member ⟨rfl, rfl⟩ with same | ⟨old, _⟩
      · cases same; exact absurd rfl elsewhere
      · exact accounted.awaits u r g p found old before own
  · rcases started.watched accounted member ⟨rfl, rfl⟩ with same | ⟨old, less⟩
    · cases same
    · rcases started.slot occupied with ⟨rfl, rfl⟩ | ⟨_, before⟩
      · exact absurd own (Nat.ne_of_gt (less rfl))
      · have ended := accounted.vacates u r g ended found old before own
        rw [started.fate_of_exit ended]; exact ended
  · rcases started.lives.1 alive with old | ⟨rfl, rfl⟩
    · refine (accounted.kept r p old).started started ?_
      rintro rfl; exact none p old
    · rcases update_cases started.custody r with ⟨_, same⟩ | ⟨elsewhere, _⟩
      · exact .inl ⟨_, by rw [same], rfl⟩
      · exact absurd rfl elsewhere
  · rcases started.lives.1 first with old | ⟨rfl, rfl⟩ <;>
      rcases started.lives.1 second with also | ⟨here, rfl⟩
    · exact accounted.single r p q old also
    · subst r; exact absurd old (none p)
    · exact absurd also (none q)
    · rfl

theorem Lives.ambient (ambient : Ambient m next) (lives : next.Lives s p) : m.Lives s p := by
  have same := ambient.alive p lives.2
  exact ⟨same ▸ lives.1, same ▸ lives.2⟩

theorem Accounted.ambient (accounted : Accounted m) (ambient : Ambient m next) :
    Accounted next := by
  have old := fun {u f} => (ambient.elsewhere u).old (f := f)
  have lives := fun {s p} => Lives.ambient (s := s) (p := p) ambient
  have custody := ambient.custody
  refine ⟨fun p ended alive => ?_, fun s found occupied => ?_, fun u s member => ?_,
    fun u s after member => ?_, fun u s after member p alive => ?_, fun u f member s g watches => ?_,
    fun u s g p found member occupied => ?_, fun u s g exit found member occupied own => ?_,
    fun s p alive => ?_, fun s p q first second => ?_⟩
  · rw [ambient.alive p alive] at ended alive
    exact accounted.gone p ended alive
  · rw [ambient.session]; exact accounted.owned s found (custody ▸ occupied)
  · rw [custody]; exact accounted.closing u s (old member (.inl rfl))
  · rw [custody]
    refine (accounted.begins u s after (old member (.inr ⟨s, rfl⟩))).imp_right fun none p alive => ?_
    exact none p (lives alive)
  · exact accounted.spawns u s after (old member (.inr ⟨s, rfl⟩)) p (lives alive)
  · rw [custody]
    obtain ⟨most, less⟩ := accounted.earlier u f (old member (.inl watches.role)) s g watches
    exact ⟨most, fun v after spawn => less v after (old spawn (.inr ⟨s, rfl⟩))⟩
  · rw [custody] at occupied
    exact accounted.awaits u s g p found (old member (.inl rfl)) occupied
  · rw [custody] at occupied
    exact ambient.ended _ (accounted.vacates u s g exit found (old member (.inl rfl)) occupied own)
  · rcases accounted.kept s p (lives alive) with ⟨slot, found, same⟩ | ⟨u, f, member, part, why⟩
    · exact .inl ⟨slot, by rw [custody]; exact found, same⟩
    · refine .inr ⟨u, f, (ambient.elsewhere u).kept member (by rintro k rfl; cases part), part, ?_⟩
      rw [custody]
      exact why.imp_right fun unlock => (ambient.elsewhere u).kept unlock fun k same => nomatch same
  · exact accounted.single s p q (lives first) (lives second)

-- What holds at every moment of a run.
structure Sound (m : Machine) : Prop where
  present : Present m
  locked : Locked m
  accounted : Accounted m

theorem sound_initial : Sound initial := by
  refine ⟨present_initial, locked_initial, ?_⟩
  have none : ∀ {u : TaskId} {f : Activity}, f ∉ initial.frames u := by
    intro u f member; rw [frames_initial] at member; cases member
  have dead : ∀ {s p}, ¬ initial.Lives s p := fun {s p} lives => nomatch lives.1
  refine ⟨fun p ended => (nomatch ended), fun _ _ occupied => (nomatch occupied),
    fun _ _ member => absurd member none,
    fun _ _ _ member => absurd member none, fun _ _ _ member => absurd member none,
    fun _ _ member => absurd member none, fun _ _ _ _ _ member => absurd member none,
    fun _ _ _ _ _ member => absurd member none, fun _ _ lives => absurd lives dead,
    fun _ _ _ lives => absurd lives dead⟩

theorem Sound.advance (sound : Sound m) (moved : m.advance setup event = some next) : Sound next := by
  obtain ⟨transition, present⟩ := advance_transition sound.present moved
  refine ⟨present, sound.locked.transition transition, ?_⟩
  cases transition with
  | turned _ turned => exact sound.accounted.turned sound.locked turned
  | started _ started => exact sound.accounted.started sound.locked started
  | ambient _ ambient => exact sound.accounted.ambient ambient

theorem Sound.runs {events : List Event} (sound : Sound m) (ran : m.runs setup events = some next) :
    Sound next := by
  induction events generalizing m with
  | nil => cases ran; exact sound
  | cons event rest ih =>
    obtain ⟨middle, moved, ran⟩ := Option.bind_eq_some_iff.1 ran
    exact ih (sound.advance moved) ran

theorem lives_iff : m.Lives s p ↔ (m.server p).session = some s ∧ (m.server p).isAlive := by
  simp [Lives, fate, Server.fate, Server.isAlive]

-- The children of a session that have not ended: those of its servers and those that have strayed.
def living (m : Machine) (s : SessionId) : Nat :=
  m.servers.countP (fun server => server.session == some s && server.isAlive) +
    m.strays.count (some s)

theorem countP_le_one {α : Type} {holds : α → Bool} {items : List α}
    (apart : items.Pairwise fun x y => holds x → ¬ holds y) : items.countP holds ≤ 1 := by
  induction apart with
  | nil => exact Nat.zero_le _
  | @cons x later first _ ih =>
    rw [List.countP_cons]
    split
    · rename_i here
      have none : later.countP holds = 0 := List.countP_eq_zero.2 fun y member => first y member here
      exact Nat.le_of_eq (congrArg (· + 1) none)
    · exact ih

theorem Sound.countP_servers (sound : Sound m) (s : SessionId) :
    m.servers.countP (fun server => server.session == some s && server.isAlive) ≤ 1 := by
  refine countP_le_one (List.pairwise_iff_getElem.2 fun p q within there less first second => ?_)
  have lives {p : ServerId} (within : p < m.servers.length)
      (counted : (m.servers[p].session == some s && m.servers[p].isAlive) = true) : m.Lives s p := by
    rw [lives_iff, server, List.getD_eq_getElem?_getD, List.getElem?_eq_getElem within]
    simpa using counted
  have same := sound.accounted.single s p q (lives within first) (lives there second)
  exact absurd same (Nat.ne_of_lt less)

-- At every moment of every run a session has at most one child that has not ended, but for those of starts
-- that have broken down. None has where the queue of a server is not too large.
theorem single_server {events : List Event} (ran : initial.runs setup events = some m) (s : SessionId) :
    m.living s ≤ m.strays.count (some s) + 1 ∧
    (setup.settings.processQueue ≤ Connection.greatestCapacity → m.living s ≤ 1) := by
  have installed := (sound_initial.runs ran).countP_servers s
  have bounded : m.living s ≤ m.strays.count (some s) + 1 := by
    rw [living, Nat.add_comm]
    exact Nat.add_le_add_left installed _
  refine ⟨bounded, fun fits => ?_⟩
  have none : m.strays.count (some s) = 0 := by
    refine List.count_eq_zero.2 fun stray => ?_
    rcases mem_strays ran stray with before | greater
    · cases before
    · exact absurd fits (Nat.not_le.2 greater)
  rwa [none] at bounded

def oneKey : Setup := ⟨[("k", default)], .standard, []⟩

-- A server ends by itself, and before anybody has seen to that a second one is started.
def restart : List Event :=
  ([.connect 8, .call (.subscribe "k" 0)] : List Event) ++ (.replicate 11 (.run 0) : List Event) ++
    ([.launch 0 none, .childEnds 0 (some 1), .watch 0 .childEnded] : List Event) ++
    (.replicate 5 (.run 0) : List Event) ++ ([.call (.ensureStarted 0)] : List Event) ++
    (.replicate 10 (.run 3) : List Event) ++ ([.launch 3 none] : List Event)

theorem single_server_after_restart : ∃ m, initial.runs oneKey restart = some m ∧
    m.servers.length = 2 ∧ (m.server 1).isAlive ∧ m.living 0 ≤ 1 := by
  obtain ⟨m, ran, facts⟩ := Option.map_eq_some_iff.1 (show (initial.runs oneKey restart).map
    (fun m => (m.servers.length, (m.server 1).isAlive)) = some (2, true) by decide)
  obtain ⟨both, alive⟩ := Prod.mk.inj facts
  exact ⟨m, ran, both, alive, (single_server ran 0).2 (by decide)⟩

def tooLarge : Setup :=
  ⟨[("k", default)], { SessionSettings.standard with processQueue := Connection.greatestCapacity + 1 }, []⟩

-- A start breaks down when its child runs, and the next one does not wait for the end of that child.
def twoBreakdowns : List Event :=
  ([.connect 8, .call (.subscribe "k" 0)] : List Event) ++ (.replicate 11 (.run 0) : List Event) ++
    ([.launch 0 none, .connect 8, .call (.subscribe "k" 1)] : List Event) ++
    (.replicate 12 (.run 1) : List Event) ++ ([.launch 1 none] : List Event)

theorem two_children_after_breakdown :
    ∃ m, initial.runs tooLarge twoBreakdowns = some m ∧ m.strays = [some 0, some 0] ∧ m.living 0 = 2 := by
  obtain ⟨m, ran, facts⟩ := Option.map_eq_some_iff.1 (show (initial.runs tooLarge twoBreakdowns).map
    (fun m => (m.strays, m.living 0)) = some ([some 0, some 0], 2) by decide)
  exact ⟨m, ran, Prod.mk.inj facts⟩

end LanguageRelay.Machine
