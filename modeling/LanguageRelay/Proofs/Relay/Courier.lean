import LanguageRelay.Proofs.Relay.Inbound
namespace LanguageRelay

namespace Activity

def load? (s : SessionId) (c : ConnectionId) : Activity → Option Message
  | .look r (.routing d message) | .begin r (.routing d message) | .spawn r (.routing d message)
  | .started r (.routing d message) _ | .offer (.client r d) _ message
  | .enqueue (.client r d) _ message => if r = s ∧ d = c then some message else none
  | _ => none

end Activity

namespace Deed

def isOf (s : SessionId) (c : ConnectionId) : Deed → Bool
  | .routed r d _ => r == s && d == c
  | .accepted _ sender _ => sender == .client s c

def routedBy? (s : SessionId) (c : ConnectionId) : Deed → Option Message
  | .routed r d message => if r = s ∧ d = c then some message else none
  | _ => none

def acceptedOf? (s : SessionId) (c : ConnectionId) : Deed → Option (ServerId × Message)
  | .accepted p sender message => if sender = .client s c then some (p, message) else none
  | _ => none

end Deed

-- The deeds of one client in turn: a message is accepted, if at all, right after it was routed.
inductive InTurn (s : SessionId) (c : ConnectionId) : List Deed → Prop where
  | nothing : InTurn s c []
  | routed {deeds message} : InTurn s c deeds → InTurn s c (deeds ++ [.routed s c message])
  | accepted {deeds p message} : InTurn s c deeds →
      InTurn s c (deeds ++ [.routed s c message, .accepted p (.client s c) message])

-- In turn, what is accepted is what was routed, less what was dropped.
theorem InTurn.sublist {s : SessionId} {c : ConnectionId} {deeds : List Deed}
    (inTurn : InTurn s c deeds) :
    ((deeds.filterMap (Deed.acceptedOf? s c)).map Prod.snd).Sublist
      (deeds.filterMap (Deed.routedBy? s c)) := by
  induction inTurn with
  | nothing => exact .refl []
  | routed _ ih =>
    rw [List.filterMap_append, List.filterMap_append, List.map_append]
    refine ih.append ?_
    exact List.nil_sublist _
  | accepted _ ih =>
    rw [List.filterMap_append, List.filterMap_append, List.map_append]
    refine ih.append ?_
    simp [List.filterMap_cons, Deed.acceptedOf?, Deed.routedBy?]

namespace Machine

-- If the client routes a message in this step, no message of its own is on its way.
def Step.inOrder (step : Step) (s : SessionId) (c : ConnectionId) : Bool :=
  match step.event.task? with
  | some t =>
    match step.before.frames t with
    | .route r d _ :: _ => (r != s || d != c) ||
      step.before.tasks.all fun task => task.frames.all fun f => (f.load? s c).isNone
    | _ => true
  | none => true

def loads (m : Machine) (s : SessionId) (c : ConnectionId) (u : TaskId) : List Message :=
  (m.frames u).filterMap (Activity.load? s c)

structure Courier (m : Machine) (s : SessionId) (c : ConnectionId) (deeds : List Deed) : Prop where
  inTurn : InTurn s c deeds
  load : (∀ u, m.loads s c u = []) ∨
    ∃ u message before, deeds = before ++ [.routed s c message] ∧ InTurn s c before ∧
      m.loads s c u = [message] ∧ ∀ v, v ≠ u → m.loads s c v = []

variable {m made next : Machine} {setup : Setup} {event : Event} {events : List Event} {t u : TaskId}
  {s r : SessionId} {c : ConnectionId} {p q : ServerId} {a f : Activity} {rest new : List Activity}
  {deeds : List Deed} {message : Message}

theorem load_of_stems (stems : Stems m a f) (load : f.load? s c = some message) :
    a.load? s c = some message ∨ ∃ original, a = .route s c original := by
  cases f with
  | look r after =>
    cases after with
    | routing d x =>
      obtain ⟨original, rfl⟩ := stems
      obtain ⟨⟨rfl, rfl⟩, rfl⟩ : (r = s ∧ d = c) ∧ x = message := by simpa [Activity.load?] using load
      exact .inr ⟨original, rfl⟩
    | _ => cases load
  | begin r after | spawn r after =>
    rw [stems]
    cases after with
    | routing d x => exact .inl load
    | _ => cases load
  | started r after p => exact stems.elim
  | offer sender p x =>
    cases sender with
    | client r d =>
      rcases stems with ⟨slot, _, _, rfl⟩ | rfl
      · exact .inl load
      · exact .inl load
    | outside => exact stems.elim
  | enqueue sender p x =>
    rw [stems]
    cases sender with
    | client r d => exact .inl load
    | outside => cases load
  | _ => cases load

theorem load_of_isEntry (entry : f.isEntry) : f.load? s c = none := by
  cases f with
  | look r after => cases after <;> first | rfl | cases entry
  | offer sender p x => cases sender <;> first | rfl | cases entry
  | begin | spawn | started | enqueue => cases entry
  | _ => rfl

theorem loads_elsewhere (elsewhere : Elsewhere m next u)
    (begun : ∀ u, m.tasks.length ≤ u → ∀ f ∈ next.frames u, f.isEntry) :
    next.loads s c u = m.loads s c u :=
  elsewhere.filterMap (fun _ => load_of_isEntry) (fun _ => rfl) begun

theorem filterMap_load_of_not (load : a.load? s c = none) (route : ∀ original, a ≠ .route s c original)
    (stems : ∀ f ∈ new, Stems m a f) : new.filterMap (Activity.load? s c) = [] := by
  apply List.filterMap_eq_nil_iff.2
  intro f member
  cases carried : f.load? s c with
  | none => rfl
  | some message =>
    rcases load_of_stems (stems f member) carried with same | ⟨original, rfl⟩
    · rw [load] at same; cases same
    · exact absurd rfl (route original)

theorem Takes.load (taken : Takes setup m t a made new) (load : a.load? s c = some message) :
    new.filterMap (Activity.load? s c) = [message] ∧ (∀ sender p x, a ≠ .enqueue sender p x) ∨
    new.filterMap (Activity.load? s c) = [] := by
  cases taken with
  | fails =>
    rename_i failed
    cases failed
    right; simp [List.filterMap_cons, Activity.load?]
  | breaks _ broke => cases broke; right; rfl
  | attends => cases load
  | performs performed =>
    cases a with
    | look r after =>
      cases after with
      | routing d x =>
        obtain ⟨⟨rfl, rfl⟩, rfl⟩ : (r = s ∧ d = c) ∧ x = message := by
          simpa [Activity.load?] using load
        left
        simp only [perform, Machine.look] at performed
        split at performed
        · cases performed
        · split at performed
          · cases performed
            simp [Activity.load?]
          · split at performed
            · cases performed
              simp [AfterStart.whenRunning, Activity.load?]
            · cases performed
              simp [publish, List.filterMap_cons, Activity.load?]
      | _ => cases load
    | begin r after =>
      cases after with
      | routing d x =>
        obtain ⟨⟨rfl, rfl⟩, rfl⟩ : (r = s ∧ d = c) ∧ x = message := by
          simpa [Activity.load?] using load
        simp only [perform, Machine.begin] at performed
        split at performed
        · cases performed
          right; simp [Activity.load?]
        · cases performed
          left; simp [List.filterMap_cons, Activity.load?]
      | _ => cases load
    | spawn => cases performed
    | started r after p =>
      cases after with
      | routing d x =>
        obtain ⟨⟨rfl, rfl⟩, rfl⟩ : (r = s ∧ d = c) ∧ x = message := by
          simpa [Activity.load?] using load
        cases performed
        left; simp [AfterStart.whenRunning, Activity.load?]
      | _ => cases load
    | offer sender p x =>
      simp only [perform, Machine.offer] at performed
      split at performed
      · cases performed
        left
        cases sender with
        | client r d =>
          obtain ⟨⟨rfl, rfl⟩, rfl⟩ : (r = s ∧ d = c) ∧ x = message := by
            simpa [Activity.load?] using load
          simp [Activity.load?]
        | outside => cases load
      · right
        cases sender <;> cases Option.some.inj performed <;> rfl
    | enqueue sender p x =>
      right
      simp only [perform, Machine.enqueue] at performed
      split at performed
      · cases performed
      · cases performed; rfl
      · cases sender <;> cases Option.some.inj performed <;> rfl
    | _ => cases load

theorem deeds_of_load (setup : Setup) (next : Machine) (load : a.load? s c = some message)
    (step : event.task? = some t) (stack : m.frames t = a :: rest) :
    (Step.deed? setup ⟨m, event, next⟩).toList.filter (Deed.isOf s c) = [] ∨
    ∃ sender p x, a = .enqueue sender p x ∧
      (Step.deed? setup ⟨m, event, next⟩).toList.filter (Deed.isOf s c) =
        [.accepted p (.client s c) message] := by
  rcases deed_cases setup next step stack with none | ⟨r, d, original, x, rfl, _⟩ |
    ⟨sender, p, x, rfl, accepted⟩
  · left; rw [none]; rfl
  · cases load
  · cases sender with
    | outside => cases load
    | client r d =>
      obtain ⟨⟨rfl, rfl⟩, rfl⟩ : (r = s ∧ d = c) ∧ x = message := by
        simpa [Activity.load?] using load
      right
      exact ⟨_, p, x, rfl, by rw [accepted]; simp [Deed.isOf]⟩

theorem deeds_of_not_load (load : a.load? s c = none) (route : ∀ original, a ≠ .route s c original)
    (step : event.task? = some t) (stack : m.frames t = a :: rest) :
    (Step.deed? setup ⟨m, event, next⟩).toList.filter (Deed.isOf s c) = [] := by
  rcases deed_cases setup next step stack with none | ⟨r, d, original, x, rfl, routed⟩ |
    ⟨sender, p, x, rfl, accepted⟩
  · rw [none]; rfl
  · have other : ¬ (r = s ∧ d = c) := by
      rintro ⟨rfl, rfl⟩; exact route original rfl
    rw [routed]
    simpa [Deed.isOf] using other
  · have other : sender ≠ .client s c := by
      rintro rfl; simp [Activity.load?] at load
    rw [accepted]
    simpa [Deed.isOf] using other

theorem nothing_loaded (inOrder : Step.inOrder ⟨m, event, next⟩ s c = true)
    (step : event.task? = some t) (stack : m.frames t = .route s c message :: rest) (u : TaskId) :
    m.loads s c u = [] := by
  simp only [Step.inOrder, step, stack, bne_self_eq_false, Bool.or_self, Bool.false_or,
    List.all_eq_true, Option.isNone_iff_eq_none] at inOrder
  apply List.filterMap_eq_nil_iff.2
  intro f member
  have there := lt_of_mem_frames member
  have same : m.frames u = (m.tasks[u]).frames := by
    simp [frames, task, List.getD_eq_getElem?_getD, there]
  exact inOrder m.tasks[u] (List.getElem_mem there) f (same ▸ member)

theorem loads_of_stack (stack : m.frames t = a :: rest) :
    m.loads s c t = (a.load? s c).toList ++ rest.filterMap (Activity.load? s c) := by
  rw [loads, stack]
  cases load : a.load? s c <;> simp [load]

theorem Courier.congr (courier : Courier m s c deeds)
    (same : ∀ u, next.loads s c u = m.loads s c u) : Courier next s c deeds := by
  refine ⟨courier.inTurn, courier.load.imp (fun none u => (same u).trans (none u)) ?_⟩
  rintro ⟨u, message, before, last, inTurn, load, none⟩
  exact ⟨u, message, before, last, inTurn, (same u).trans load,
    fun v other => (same v).trans (none v other)⟩

-- What the task carries is all that is on its way.
theorem Courier.alone (courier : Courier m s c deeds) (stack : m.frames t = a :: rest)
    (load : a.load? s c = some message) :
    rest.filterMap (Activity.load? s c) = [] ∧ (∀ v, v ≠ t → m.loads s c v = []) ∧
    ∃ before, deeds = before ++ [Deed.routed s c message] ∧ InTurn s c before := by
  have carried := loads_of_stack (s := s) (c := c) stack
  rw [load, Option.toList_some, List.singleton_append] at carried
  rcases courier.load with none | ⟨u, x, before, last, inTurn, loaded, none⟩
  · rw [none t] at carried; cases carried
  · have here : t = u := by
      apply Classical.byContradiction
      intro other
      rw [none t other] at carried; cases carried
    subst u
    rw [loaded] at carried
    obtain ⟨rfl, nothing⟩ := List.cons.inj carried
    exact ⟨nothing.symm, none, before, last, inTurn⟩

theorem Courier.carried (courier : Courier m s c deeds) (step : event.task? = some t)
    (turned : Turned m t a rest new next) (taken : Takes setup m t a made new)
    (load : a.load? s c = some message) (others : ∀ u, u ≠ t → next.loads s c u = m.loads s c u) :
    Courier next s c
      (deeds ++ (Step.deed? setup ⟨m, event, next⟩).toList.filter (Deed.isOf s c)) := by
  obtain ⟨below, none, before, last, inTurn⟩ := courier.alone turned.stack load
  have own : next.loads s c t = new.filterMap (Activity.load? s c) := by
    rw [loads, turned.replaced, List.filterMap_append, below, List.append_nil]
  have elsewhere : ∀ v, v ≠ t → next.loads s c v = [] :=
    fun v other => (others v other).trans (none v other)
  have deed := deeds_of_load setup next load step turned.stack
  rcases taken.load load with ⟨on, other⟩ | down
  · have quiet := deed.resolve_right fun ⟨sender, p, x, same, _⟩ => other sender p x same
    rw [quiet, List.append_nil]
    exact ⟨courier.inTurn, .inr ⟨t, message, before, last, inTurn, own.trans on, elsewhere⟩⟩
  · have nothing : ∀ u, next.loads s c u = [] := by
      intro u
      by_cases here : u = t
      · rw [here, own, down]
      · exact elsewhere u here
    rcases deed with quiet | ⟨_, p, _, _, accepted⟩
    · rw [quiet, List.append_nil]
      exact ⟨courier.inTurn, .inl nothing⟩
    · rw [accepted, last, List.append_assoc]
      exact ⟨.accepted inTurn, .inl nothing⟩

theorem Courier.routes (courier : Courier m s c deeds) (step : event.task? = some t)
    (turned : Turned m t (.route s c message) rest new next)
    (taken : Takes setup m t (.route s c message) made new) (nothing : ∀ u, m.loads s c u = [])
    (others : ∀ u, u ≠ t → next.loads s c u = m.loads s c u) :
    Courier next s c
      (deeds ++ (Step.deed? setup ⟨m, event, next⟩).toList.filter (Deed.isOf s c)) := by
  have below : rest.filterMap (Activity.load? s c) = [] := by
    have none := nothing t
    rw [loads_of_stack turned.stack] at none
    exact (List.append_eq_nil_iff.1 none).2
  have own : next.loads s c t = new.filterMap (Activity.load? s c) := by
    rw [loads, turned.replaced, List.filterMap_append, below, List.append_nil]
  have elsewhere : ∀ v, v ≠ t → next.loads s c v = [] :=
    fun v other => (others v other).trans (nothing v)
  rw [deed_of_route step turned.stack]
  cases taken with
  | performs performed =>
    simp only [perform, Machine.route, askListeners] at performed
    split at performed
    · rename_i asked
      cases performed
      have dropped : passed setup (m.session s).key message = none := congrArg Prod.fst asked
      rw [dropped, Option.map_none, Option.toList_none, List.filter_nil, List.append_nil]
      refine ⟨courier.inTurn, .inl fun u => ?_⟩
      by_cases here : u = t
      · rw [here, own]; rfl
      · exact elsewhere u here
    · rename_i left _ asked
      cases performed
      have through : passed setup (m.session s).key message = some left := congrArg Prod.fst asked
      have mine : ((Option.map (Deed.routed s c) (some left)).toList.filter (Deed.isOf s c)) =
          [.routed s c left] := by simp [Deed.isOf]
      rw [through, mine]
      refine ⟨.routed courier.inTurn, .inr ⟨t, left, deeds, rfl, courier.inTurn, ?_, elsewhere⟩⟩
      rw [own]
      simp [Activity.load?]

theorem Courier.turned (courier : Courier m s c deeds) (step : event.task? = some t)
    (inOrder : Step.inOrder ⟨m, event, next⟩ s c = true) (turned : Turned m t a rest new next)
    (taken : Takes setup m t a made new) (leaves : Leaves m a next new) :
    Courier next s c
      (deeds ++ (Step.deed? setup ⟨m, event, next⟩).toList.filter (Deed.isOf s c)) := by
  have others : ∀ u, u ≠ t → next.loads s c u = m.loads s c u :=
    fun u other => loads_elsewhere (turned.elsewhere u other) leaves.foot.begun
  cases load : a.load? s c with
  | some message => exact courier.carried step turned taken load others
  | none =>
    by_cases route : ∃ original, a = .route s c original
    · obtain ⟨original, rfl⟩ := route
      exact courier.routes step turned taken (nothing_loaded inOrder step turned.stack) others
    · have other : ∀ original, a ≠ .route s c original :=
        fun original same => route ⟨original, same⟩
      rw [deeds_of_not_load load other step turned.stack, List.append_nil]
      apply courier.congr
      intro u
      by_cases here : u = t
      · rw [here, loads_of_stack turned.stack, load, loads, turned.replaced, List.filterMap_append,
          filterMap_load_of_not load other leaves.stems]
        rfl
      · exact others u here

theorem loads_started {after : AfterStart} (started : Started m t r after rest next)
    (launches : Launches setup m t r after rest next) (u : TaskId) :
    next.loads s c u = m.loads s c u := by
  by_cases here : u = t
  · subst u
    rw [loads_of_stack started.stack, loads, launches.replaced]
    cases after <;> simp [List.filterMap_cons, Activity.load?]
    split <;> rename_i carried <;> rw [carried] <;> rfl
  · unfold loads
    by_cases pump : u = m.tasks.length
    · rw [pump, started.pump, frames_of_length_le (Nat.le_refl _)]
      rfl
    · by_cases awaits : u = m.tasks.length + 1
      · rw [awaits, started.awaitExit, frames_of_length_le (Nat.le_succ _)]
        rfl
      · rw [started.elsewhere u here pump awaits]

theorem Courier.advance (courier : Courier m s c deeds)
    (inOrder : Step.inOrder ⟨m, event, next⟩ s c = true)
    (happens : Happens setup m event next) :
    Courier next s c
      (deeds ++ (Step.deed? setup ⟨m, event, next⟩).toList.filter (Deed.isOf s c)) := by
  cases happens with
  | turned step turned taken leaves _ => exact courier.turned step inOrder turned taken leaves
  | started launch started launches =>
    subst launch
    rw [deed_of_other rfl started.stack (by simp) (by simp)]
    rw [Option.toList_none, List.filter_nil, List.append_nil]
    exact courier.congr (loads_started started launches)
  | ambient world ambient outside =>
    rw [deed_of_world world, Option.toList_none, List.filter_nil, List.append_nil]
    exact courier.congr fun u => loads_elsewhere (ambient.elsewhere u) outside.begun

end Machine
end LanguageRelay
