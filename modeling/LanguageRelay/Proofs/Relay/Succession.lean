import LanguageRelay.Proofs.Relay.FanOut
import LanguageRelay.Proofs.Relay.Isolation
namespace LanguageRelay.Machine
variable {m made next : Machine} {setup : Setup} {event : Event} {earlier events : List Event}
  {t u : TaskId} {s : SessionId} {p q : ServerId} {c : ConnectionId} {a : Activity} {key : String}
  {after : AfterStart} {rest new : List Activity}

-- Every server of a session has its reader, and is over when it is not the last one.
structure Succession (m : Machine) : Prop where
  attended : ∀ s p, (m.fate p).session = some s → ∃ key t, m.Keys key s ∧ Reader m t s p key
  installed : ∀ u s after q, .started s after q ∈ m.frames u → (m.fate q).session = some s
  past : ∀ s p q, p < q → (m.fate q).session = some s → ¬ m.Lives s p

theorem owner_cases (transition : Transition m event next) (own : (next.fate p).session = some s) :
    (m.fate p).session = some s ∨
    p = m.servers.length ∧ ∃ t after rest, event = .launch t none ∧ Started m t s after rest next := by
  cases transition with
  | turned _ turned => rw [turned.fate] at own; exact .inl own
  | @started t r after rest launch started =>
    by_cases fresh : p = m.servers.length
    · subst p
      rw [started.fate, Function.update_self] at own
      cases own
      exact .inr ⟨rfl, t, after, rest, launch, started⟩
    · rw [started.fate, Function.update_of_ne fresh] at own
      exact .inl own
  | ambient _ ambient => rw [ambient.session] at own; exact .inl own

theorem lives_cases (transition : Transition m event next) (lives : next.Lives s p) :
    m.Lives s p ∨ p = m.servers.length := by
  cases transition with
  | turned _ turned => exact .inl ((Lives.turned turned).1 lives)
  | started _ started => exact (started.lives.1 lives).imp_right And.right
  | ambient _ ambient => exact .inl (Lives.ambient ambient lives)

theorem installed_cases (happens : Happens setup m event next)
    (member : .started s after q ∈ next.frames u) :
    .started s after q ∈ m.frames u ∨ (next.fate q).session = some s := by
  cases happens with
  | @turned t a _ _ _ step turned _ leaves _ =>
    rcases turned.old member (.inr ⟨s, rfl⟩) with ⟨_, added⟩ | ⟨old, _⟩
    · exact (leaves.stems _ added).elim
    · exact .inl old
  | started _ started _ =>
    rcases started.old member (.inr ⟨s, rfl⟩) with ⟨same, _⟩ | same | ⟨old, _⟩
    · cases same
      right; rw [started.fate, Function.update_self]
    · cases same
    · exact .inl old
  | ambient _ ambient _ => exact .inl ((ambient.elsewhere u).old member (.inr ⟨s, rfl⟩))

theorem Succession.advance (succession : Succession m) (fans : Fans m) (sound : Sound m)
    (moved : m.advance setup event = some next) : Succession next := by
  have happens := sound.happens moved
  have transition := (advance_transition sound.present moved).1
  refine ⟨fun s p own => ?_, fun u s after q member => ?_, fun s p q older own lives => ?_⟩
  · rcases owner_cases transition own with old | ⟨rfl, t, after, rest, _, started⟩
    · obtain ⟨key, t, keys, reader⟩ := succession.attended s p old
      exact ⟨key, t, keys.mono moved sound, reader.advance fans sound moved⟩
    · have top : .spawn s after ∈ m.frames t := started.stack ▸ List.mem_cons_self
      have keys : m.Keys (m.session s).key s := ⟨sound.present.frames t _ top, rfl⟩
      have atRest := Reader.of_atRest (fans.advance sound moved) started.pump
      rw [(keys.mono moved sound).2] at atRest
      exact ⟨_, _, keys.mono moved sound, atRest⟩
  · rcases installed_cases happens member with old | own
    · exact happens.owner (succession.installed u s after q old)
    · exact own
  · rcases owner_cases transition own with old | ⟨rfl, t, after, rest, _, started⟩
    · rcases lives_cases transition lives with before | rfl
      · exact succession.past s p q older old before
      · rw [fate_of_length_le (Nat.le_of_lt older)] at old; cases old
    · have top : .spawn s after ∈ m.frames t := started.stack ▸ List.mem_cons_self
      rcases lives_cases transition lives with before | rfl
      · exact sound.accounted.spawns t s after top p before
      · exact Nat.lt_irrefl _ older

theorem Succession.runs (ran : initial.runs setup events = some m) : Succession m := by
  have none : ∀ p, (initial.fate p).session = none := fun p => rfl
  refine (sound_initial.induction (motive := fun _ now => Fans now ∧ Succession now) ran
    ⟨fans_initial, fun s p own => ?_, fun u s after q member => ?_, fun s p q _ own => ?_⟩ ?_).2
  · rw [none] at own; cases own
  · rw [frames_initial] at member; cases member
  · rw [none] at own; cases own
  · intro _ _ _ _ sound moved ⟨fans, succession⟩
    exact ⟨fans.advance sound moved, succession.advance fans sound moved⟩

-- Whoever is not in the set or has no room gets less, and nobody gets more than is owed or read.
theorem Pumping.bounded (happens : Happens setup m event next) (step : event.task? = some t)
    (turned : Turned m t a rest new next) (taken : Takes setup m t a made new)
    (pumping : Pumping s p (a :: rest)) (named : (m.session s).key = key) :
    (Step.messages ⟨m, event, next⟩ c ++ owed setup key c (new ++ rest)).Sublist
      (owed setup key c (a :: rest) ++
        (Step.read ⟨m, event, next⟩ p).filterMap (fanned setup key)) := by
  have stack := turned.stack
  have silent : (∀ s pending gone message, a ≠ .deliver s (c :: pending) gone (.message message)) →
      Step.messages ⟨m, event, next⟩ c = [] := messages_of_top happens step stack
  cases taken with
  | fails | breaks | attends => cases pumping
  | performs performed =>
    cases pumping with
    | atRest =>
      rw [silent (by simp), read_of_pump step stack]
      simp only [perform, Machine.pump] at performed
      split at performed
      · cases performed
      · rename_i message server read
        cases performed
        rw [read]
        cases result : fanned setup key message <;> simp [owed, result]
      · cases performed
        simp [owed]
    | fanning =>
      rw [silent (by simp)]
      subst named
      simp only [perform, Machine.fanOut] at performed
      split at performed
      · cases performed
        simp [owed]
      · rename_i asked
        cases performed
        have made := congrArg Prod.fst asked
        simp only [Machine.askListeners] at made
        simp [owed, fanned, made]
    | broadcasting =>
      rw [silent (by simp)]
      cases performed
      by_cases attached : c ∈ (m.session s).subscribers <;> simp [owed, attached]
    | @delivering pending gone message distinct =>
      cases pending with
      | nil =>
        rw [silent (by simp)]
        cases performed
        split <;> simp [owed]
      | cons d pending =>
        have distinct := List.nodup_cons.1 distinct
        have after : owed setup key c (new ++ [.checkUsed s, .pump s p]) =
            if c ∈ pending then [message] else [] := by
          simp only [perform, Machine.deliver] at performed
          split at performed <;> cases performed <;> rfl
        rw [after]
        by_cases here : d = c
        · subst d
          rw [if_neg distinct.1, List.append_nil]
          rcases messages_cases happens c with none | ⟨_, _, _, _, _, _, also, top, some⟩
          · rw [none]; exact List.nil_sublist _
          · cases step.symm.trans also
            cases stack.symm.trans top
            rw [some]
            simp [owed]
        · rw [silent (by simp [here])]
          have apart : (c = d ∨ c ∈ pending) ↔ c ∈ pending := by simp [Ne.symm here]
          simp [owed, apart]
    | evicting distinct =>
      rw [silent (by simp)]
      cases performed
      simp [owed]
    | removing | checking =>
      rw [silent (by simp)]
      cases performed
      simp [owed]

theorem Reader.bounded (reader : Reader m t s p key) (sound : Sound m)
    (moved : m.advance setup event = some next) :
    (Step.contributed ⟨m, event, next⟩ p c ++ owed setup key c (next.frames t)).Sublist
      (owed setup key c (m.frames t) ++
        (Step.read ⟨m, event, next⟩ p).filterMap (fanned setup key)) := by
  have happens := sound.happens moved
  by_cases own : event.task? = some t
  · cases happens with
    | @turned u a rest made new step turned taken leaves shape =>
      cases own.symm.trans step
      obtain ⟨pumping, named⟩ := reader.pumping turned.stack
      have member : .pump s p ∈ m.frames t := turned.stack ▸ pumping.fanning_mem
      rw [contributed_of_mem step member, turned.replaced, turned.stack]
      exact pumping.bounded (.turned step turned taken leaves shape) step turned taken named
    | started launch started _ =>
      subst launch
      cases own
      cases (reader.pumping started.stack).1
    | ambient outside _ _ => rw [outside] at own; cases own
  · obtain ⟨silent, unread⟩ : Step.contributed ⟨m, event, next⟩ p c = [] ∧
        Step.read ⟨m, event, next⟩ p = [] := reader.idle own
    rw [silent, unread, reader.kept happens own]
    simp

-- What is on its way from a server to the connection: what the task that reads its output has under way,
-- and what the listeners leave of what it reads in the course of the run.
def lastWords (setup : Setup) (m : Machine) (events : List Event) (t : TaskId) (p : ServerId)
    (key : String) (c : ConnectionId) : List Message :=
  owed setup key c (m.frames t) ++
    ((m.steps setup events).flatMap (·.read p)).filterMap (fanned setup key)

-- How far the last words have been said.
structure Fading (setup : Setup) (m : Machine) (t : TaskId) (s : SessionId) (p : ServerId)
    (key : String) (taken : List Step) (now : Machine) : Prop where
  fans : Fans now
  reader : Reader now t s p key
  bounded : ∀ c, (taken.flatMap (·.contributed p c) ++ owed setup key c (now.frames t)).Sublist
    (owed setup key c (m.frames t) ++ (taken.flatMap (·.read p)).filterMap (fanned setup key))
  conserved : ∀ c, (∀ step ∈ taken, c ∈ (step.before.session s).subscribers) →
    (∀ step ∈ taken, step.findsRoom c) →
    taken.flatMap (·.contributed p c) ++ owed setup key c (now.frames t) =
      owed setup key c (m.frames t) ++ (taken.flatMap (·.read p)).filterMap (fanned setup key)
  drawn : (∀ step ∈ taken, step.readsElsewhere p = false) →
    Drawn now t p ((m.server p).output.buffered ++ taken.flatMap (·.output p))
      ((taken.flatMap (·.read p)).map Message.body)

theorem Fading.advance {taken : List Step} (fading : Fading setup m t s p key taken made)
    (sound : Sound made) (moved : made.advance setup event = some next) :
    Fading setup m t s p key (taken ++ [⟨made, event, next⟩]) next := by
  have before : ∀ {motive : Step → Prop}, (∀ step ∈ taken ++ [⟨made, event, next⟩], motive step) →
      (∀ step ∈ taken, motive step) ∧ motive ⟨made, event, next⟩ := by
    intro motive all
    exact ⟨fun step member => all step (List.mem_append_left _ member), all _ (by simp)⟩
  refine ⟨fading.fans.advance sound moved, fading.reader.advance fading.fans sound moved, fun c => ?_,
    fun c attached room => ?_, fun other => ?_⟩
  · have last := fading.reader.bounded (c := c) sound moved
    simp only [List.flatMap_append, List.flatMap_cons, List.flatMap_nil, List.append_nil,
      List.filterMap_append, List.append_assoc]
    refine ((List.Sublist.refl _).append last).trans ?_
    rw [← List.append_assoc, ← List.append_assoc]
    exact (fading.bounded c).append (List.Sublist.refl _)
  · obtain ⟨attached, now⟩ := before attached
    obtain ⟨room, finds⟩ := before room
    simp only [List.flatMap_append, List.flatMap_cons, List.flatMap_nil, List.append_nil,
      List.filterMap_append, List.append_assoc]
    rw [fading.reader.conserved sound moved now finds, ← List.append_assoc,
      fading.conserved c attached room, List.append_assoc]
  · obtain ⟨others, last⟩ := before other
    simpa only [List.flatMap_append, List.flatMap_cons, List.flatMap_nil, List.append_nil,
      List.map_append, List.append_assoc] using fading.reader.drawn sound moved last (fading.drawn others)

theorem Fading.runs (fans : Fans m) (reader : Reader m t s p key) (sound : Sound m)
    (span : m.runs setup events = some next) :
    Fading setup m t s p key (m.steps setup events) next := by
  refine sound.induction (motive := fun taken now => Fading setup m t s p key taken now) span
    ⟨fans, reader, fun c => by simp, fun c _ _ => by simp, fun _ => ⟨_, by simpa using .none, fun _ => rfl⟩⟩ ?_
  intro _ _ _ _ sound moved fading
  exact fading.advance sound moved

-- Once a server has been announced to everybody, an earlier server of its session is over. What still
-- comes from it to a subscriber are its last words in their order, and to one who stays and has room all
-- of them. So exactly when nothing is under way and no listener lets pass what is read, nothing comes.
theorem last_words (ran : initial.runs setup earlier = some m)
    (announced : m.frames u = .started s after q :: rest) (own : (m.server p).session = some s)
    (older : p < q) (span : m.runs setup events = some next) :
    ¬ (m.server p).isAlive ∧ ∃ t, Reader m t s p (m.session s).key ∧
      (∀ c, ((m.steps setup events).flatMap (·.contributed p c)).Sublist
        (m.lastWords setup events t p (m.session s).key c)) ∧
      (∀ c, (∀ step ∈ m.steps setup events, c ∈ (step.before.session s).subscribers) →
        (∀ step ∈ m.steps setup events, step.findsRoom c) →
        next.frames t = [.pump s p] ∨ next.frames t = [] →
        (m.steps setup events).flatMap (·.contributed p c) =
          m.lastWords setup events t p (m.session s).key c ∧
        ((m.steps setup events).flatMap (·.contributed p c) = [] ↔
          owed setup (m.session s).key c (m.frames t) = [] ∧
          ∀ message ∈ (m.steps setup events).flatMap (·.read p),
            fanned setup (m.session s).key message = none)) ∧
      ((∀ step ∈ m.steps setup events, step.readsElsewhere p = false) →
        ∃ left, Frame.Yields ((m.server p).output.buffered ++ (m.steps setup events).flatMap (·.output p))
          (((m.steps setup events).flatMap (·.read p)).map Message.body) left) := by
  have sound := sound_initial.runs ran
  have succession := Succession.runs ran
  have successor : (m.fate q).session = some s :=
    succession.installed u s after q (announced ▸ List.mem_cons_self)
  refine ⟨fun alive => succession.past s p q older successor (lives_iff.2 ⟨own, alive⟩), ?_⟩
  obtain ⟨key, t, keys, reader⟩ := succession.attended s p own
  obtain rfl := keys.2
  have fading := Fading.runs (.runs ran) reader sound span
  refine ⟨t, reader, fun c => ?_, fun c attached room idle => ?_, fun other => ?_⟩
  · exact (List.sublist_append_left _ _).trans (fading.bounded c)
  · have nothing : owed setup (m.session s).key c (next.frames t) = [] := by
      rcases idle with atRest | gone
      · rw [atRest]; rfl
      · rw [gone]; rfl
    have all := fading.conserved c attached room
    rw [nothing, List.append_nil] at all
    refine ⟨all, ?_⟩
    rw [all, List.append_eq_nil_iff, List.filterMap_eq_nil_iff]
  · obtain ⟨left, yields, _⟩ := fading.drawn other
    exact ⟨left, yields⟩

-- A server writes a frame and ends. Its successor is announced before anybody has read the frame.
def testament : List Event :=
  ([.connect 8, .call (.subscribe "k" 0)] : List Event) ++ (.replicate 11 (.run 0) : List Event) ++
    ([.launch 0 none, .childWrites 0 (Frame.encode "{}"), .childEnds 0 (some 1),
      .watch 0 .childEnded] : List Event) ++
    (.replicate 5 (.run 0) : List Event) ++ ([.call (.ensureStarted 0)] : List Event) ++
    (.replicate 10 (.run 3) : List Event) ++ ([.launch 3 none] : List Event) ++
    (.replicate 4 (.run 3) : List Event)

-- The task of the first server reads it.
def opening : List Event := .replicate 6 (.run 1)

theorem last_words_after_restart : ∃ m next t, initial.runs oneKey testament = some m ∧
    m.frames 3 = [.started 0 .ensured 1] ∧ (m.server 0).session = some 0 ∧
    m.runs oneKey opening = some next ∧ ¬ (m.server 0).isAlive ∧ Reader m t 0 0 (m.session 0).key ∧
    (m.steps oneKey opening).flatMap (·.contributed 0 0) =
      m.lastWords oneKey opening t 0 (m.session 0).key 0 ∧
    ∃ left, Frame.Yields (m.server 0).output.buffered ["{}"] left := by
  obtain ⟨m, ran, tops⟩ := Option.map_eq_some_iff.1 (show (initial.runs oneKey testament).map
    (fun m => (m.frames 3, m.frames 1, (m.server 0).session)) =
      some ([.started 0 .ensured 1], [.pump 0 0], some 0) by rfl)
  obtain ⟨announced, reading, own⟩ : m.frames 3 = [.started 0 .ensured 1] ∧ m.frames 1 = [.pump 0 0] ∧
      (m.server 0).session = some 0 := by simpa using tops
  have steps : (initial.runs oneKey testament).any (fun m => (m.steps oneKey opening).all fun step =>
      (step.before.session 0).subscribers.contains 0 && step.findsRoom 0 && !step.readsElsewhere 0 &&
        (step.output 0).isEmpty) := by decide
  have reads : (initial.runs oneKey testament).any (fun m =>
      (m.steps oneKey opening).flatMap (·.read 0) == [⟨"{}"⟩]) := by decide
  have ends : (initial.runs oneKey testament).any (fun m => (m.runs oneKey opening).isSome) := by decide
  have stays : (initial.runs oneKey testament).map (fun m => (m.runs oneKey opening).map (·.frames 1)) =
      some (some [.pump 0 0]) := by rfl
  simp only [ran, Option.any_some, Option.map_some, Option.some.injEq] at steps reads ends stays
  obtain ⟨next, span⟩ := Option.isSome_iff_exists.1 ends
  rw [span] at stays
  have every : ∀ step ∈ m.steps oneKey opening, ((0 ∈ (step.before.session 0).subscribers ∧
      step.findsRoom 0) ∧ step.readsElsewhere 0 = false) ∧ step.output 0 = [] := by
    intro step member
    simpa using List.all_eq_true.1 steps step member
  obtain ⟨ended, t, reader, _, all, drawn⟩ := last_words ran announced own Nat.zero_lt_one span
  have here : 1 = t := reader.alone 1 0 (by rw [reading]; exact List.mem_cons_self)
  subst here
  refine ⟨m, next, 1, ran, announced, own, span, ended, reader, ?_, ?_⟩
  · exact (all 0 (fun step member => (every step member).1.1.1)
      (fun step member => (every step member).1.1.2) (.inl (Option.some.inj stays))).1
  · obtain ⟨left, yields⟩ := drawn fun step member => (every step member).1.2
    have silent : (m.steps oneKey opening).flatMap (·.output 0) = [] :=
      List.flatMap_eq_nil_iff.2 fun step member => (every step member).2
    rw [silent, List.append_nil, beq_iff_eq.1 reads] at yields
    exact ⟨left, yields⟩

-- Everybody has been told that the successor runs, and a frame of its predecessor is delivered.
theorem predecessor_speaks : ∃ m next, initial.runs oneKey testament = some m ∧
    m.frames 3 = [.started 0 .ensured 1] ∧ (m.session 0).state = .running ∧
    (m.server 0).session = some 0 ∧ (m.server 0).isAlive = false ∧
    m.runs oneKey opening = some next ∧
    (m.steps oneKey opening).flatMap (·.contributed 0 0) = [⟨"{}"⟩] := by
  obtain ⟨m, ran, facts⟩ := Option.map_eq_some_iff.1 (show (initial.runs oneKey testament).map (fun m =>
    (m.frames 3, (m.session 0).state, (m.server 0).session, (m.server 0).isAlive)) =
      some ([.started 0 .ensured 1], .running, some 0, false) by rfl)
  have goes : (initial.runs oneKey testament).any (fun m => (m.runs oneKey opening).isSome &&
      (m.steps oneKey opening).flatMap (·.contributed 0 0) == [⟨"{}"⟩]) := by decide
  rw [ran, Option.any_some, Bool.and_eq_true] at goes
  obtain ⟨next, span⟩ := Option.isSome_iff_exists.1 goes.1
  simp only [Prod.mk.injEq] at facts
  exact ⟨m, next, ran, facts.1, facts.2.1, facts.2.2.1, facts.2.2.2, span, beq_iff_eq.1 goes.2⟩

end LanguageRelay.Machine
