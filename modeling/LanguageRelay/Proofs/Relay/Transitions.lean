import LanguageRelay.Proofs.Relay.Moves
namespace LanguageRelay.Machine

-- A step of the task `t` that starts no server.
structure Turned (m : Machine) (t : TaskId) (a : Activity) (rest new : List Activity)
    (next : Machine) : Prop where
  stack : m.frames t = a :: rest
  replaced : next.frames t = new ++ rest
  elsewhere : ∀ u, u ≠ t → Elsewhere m next u
  move : Move m t a next.custody new
  tends : ∀ s, Tends s (m.custody s).epoch a → (∃ f ∈ new, Tends s (m.custody s).epoch f) ∨
    (∃ f ∈ next.frames m.tasks.length, Tends s (m.custody s).epoch f) ∨
    (m.custody s).subscribers ≠ [] ∨ (next.custody s).slot = none
  fate : next.fate = m.fate

-- The task `t` starts a server. Two tasks begin that look after it.
structure Started (m : Machine) (t : TaskId) (s : SessionId) (after : AfterStart)
    (rest : List Activity) (next : Machine) : Prop where
  stack : m.frames t = .spawn s after :: rest
  replaced : ∃ inner, (∀ f ∈ inner, f.role = .inner) ∧
    next.frames t = inner ++ .started s after m.servers.length :: rest
  pump : next.frames m.tasks.length = [.pump s m.servers.length]
  awaitExit : next.frames (m.tasks.length + 1) =
    [.awaitExit s (m.custody s).generation m.servers.length]
  elsewhere : ∀ u, u ≠ t → u ≠ m.tasks.length → u ≠ m.tasks.length + 1 → next.frames u = m.frames u
  custody : next.custody = Function.update m.custody s
    { m.custody s with slot := some ⟨(m.custody s).generation, m.servers.length⟩ }
  fate : next.fate = Function.update m.fate m.servers.length ⟨some s, .alive, none⟩

-- A step of the world around the relay. A child that is alive after it is as it was.
structure Ambient (m next : Machine) : Prop where
  elsewhere : ∀ u, Elsewhere m next u
  custody : next.custody = m.custody
  session : ∀ p, (next.fate p).session = (m.fate p).session
  alive : ∀ p, (next.fate p).child = .alive → next.fate p = m.fate p
  ended : ∀ p, (m.fate p).exit.isSome → (next.fate p).exit.isSome

inductive Transition (m : Machine) (event : Event) (next : Machine) : Prop where
  | turned {t a rest new} : event.task? = some t → Turned m t a rest new next → Transition m event next
  | started {t s after rest} : event = .launch t none → Started m t s after rest next →
      Transition m event next
  | ambient : event.task? = none → Ambient m next → Transition m event next

variable {m next made : Machine} {setup : Setup} {event : Event} {t u : TaskId} {s : SessionId}
  {p : ServerId} {a f : Activity} {rest new : List Activity}

theorem lt_of_mem_frames (member : f ∈ m.frames u) : u < m.tasks.length := by
  refine Nat.lt_of_not_le fun beyond => ?_
  rw [frames_of_length_le beyond] at member
  exact List.not_mem_nil member

theorem of_all_frames {p : Activity → Bool} (all : m.tasks.all fun task => task.frames.all p)
    (member : f ∈ m.frames u) : p f := by
  have there := lt_of_mem_frames member
  simp only [frames, task, List.getD_eq_getElem?_getD, List.getElem?_eq_getElem there,
    Option.getD_some] at member
  exact List.all_eq_true.1 (List.all_eq_true.1 all _ (List.getElem_mem there)) f member

theorem Elsewhere.old (elsewhere : Elsewhere m next u) (member : f ∈ next.frames u)
    (part : f.role = .bound ∨ ∃ s, f.role = .freeing s) : f ∈ m.frames u := by
  rcases elsewhere with kept | ⟨_, ⟨outer, _⟩ | ⟨p, grace, stops⟩, _⟩ | ⟨_, broken⟩
  · exact kept ▸ member
  · have none := outer f member
    rcases part with bound | ⟨s, freeing⟩ <;> simp_all
  · rw [stops, List.mem_singleton] at member
    subst f
    rcases part with bound | ⟨s, freeing⟩ <;> simp_all [Activity.role]
  · rw [broken] at member; cases member

theorem Elsewhere.kept (elsewhere : Elsewhere m next u) (member : f ∈ m.frames u)
    (part : ∀ k, f ≠ .forward k) : f ∈ next.frames u := by
  rcases elsewhere with kept | ⟨beyond, _⟩ | ⟨forwarder, _⟩
  · exact kept ▸ member
  · exact absurd (lt_of_mem_frames member) (Nat.not_lt_of_le beyond)
  · obtain ⟨k, rfl⟩ := forwarder f member
    exact absurd rfl (part k)

theorem Turned.old (turned : Turned m t a rest new next) (member : f ∈ next.frames u)
    (part : f.role = .bound ∨ ∃ s, f.role = .freeing s) :
    (u = t ∧ f ∈ new) ∨ (f ∈ m.frames u ∧ (u = t → f ∈ rest)) := by
  by_cases here : u = t
  · subst u
    rw [turned.replaced] at member
    rcases List.mem_append.1 member with added | old
    · exact .inl ⟨rfl, added⟩
    · refine .inr ⟨?_, fun _ => old⟩
      rw [turned.stack]; exact List.mem_cons_of_mem _ old
  · exact .inr ⟨(turned.elsewhere u here).old member part, fun same => absurd same here⟩

theorem Turned.kept (turned : Turned m t a rest new next) (member : f ∈ m.frames u)
    (part : ∀ k, f ≠ .forward k) : (u = t ∧ f = a) ∨ f ∈ next.frames u := by
  by_cases here : u = t
  · subst u
    rw [turned.stack] at member
    rcases List.mem_cons.1 member with top | old
    · exact .inl ⟨rfl, top⟩
    · refine .inr ?_
      rw [turned.replaced]; exact List.mem_append_right _ old
  · exact .inr ((turned.elsewhere u here).kept member part)

theorem Started.old (started : Started m t s after rest next) (member : f ∈ next.frames u)
    (part : f.role = .bound ∨ ∃ s, f.role = .freeing s) :
    f = .started s after m.servers.length ∧ u = t ∨
    f = .awaitExit s (m.custody s).generation m.servers.length ∨
    f ∈ m.frames u ∧ (u = t → f ∈ rest) := by
  by_cases here : u = t
  · subst u
    obtain ⟨inner, light, replaced⟩ := started.replaced
    rw [replaced] at member
    rcases List.mem_append.1 member with added | old
    · have none := light f added
      rcases part with bound | ⟨s, freeing⟩ <;> simp_all
    · rcases List.mem_cons.1 old with top | old
      · exact .inl ⟨top, rfl⟩
      · refine .inr (.inr ⟨?_, fun _ => old⟩)
        rw [started.stack]; exact List.mem_cons_of_mem _ old
  · by_cases pump : u = m.tasks.length
    · subst u
      rw [started.pump, List.mem_singleton] at member
      subst f
      rcases part with bound | ⟨s, freeing⟩ <;> simp_all [Activity.role]
    · by_cases awaits : u = m.tasks.length + 1
      · subst u
        rw [started.awaitExit, List.mem_singleton] at member
        exact .inr (.inl member)
      · rw [started.elsewhere u here pump awaits] at member
        exact .inr (.inr ⟨member, fun same => absurd same here⟩)

theorem Started.kept (started : Started m t s after rest next) (member : f ∈ m.frames u) :
    f = .spawn s after ∧ u = t ∨ f ∈ next.frames u := by
  by_cases here : u = t
  · subst u
    rw [started.stack] at member
    obtain ⟨inner, _, replaced⟩ := started.replaced
    rcases List.mem_cons.1 member with top | old
    · exact .inl ⟨top, rfl⟩
    · refine .inr ?_
      rw [replaced]; exact List.mem_append_right _ (List.mem_cons_of_mem _ old)
  · have there := lt_of_mem_frames member
    rw [started.elsewhere u here (Nat.ne_of_lt there) (Nat.ne_of_lt (Nat.lt_succ_of_lt there))]
    exact .inr member

theorem forward_new {k : SocketId} (taken : Takes setup m t (.forward k) made new) :
    IsForwarder new := by
  cases taken with
  | performs performed =>
    simp only [perform, Machine.forward] at performed
    split at performed <;> split at performed <;> cases performed <;> simp [IsForwarder]

-- A task that is there stays within what is there, and a forwarder forwards, unless a step of the task
-- itself puts in other frames.
theorem Present.preserved (present : Present m)
    (sessions : m.sessions.length ≤ next.sessions.length)
    (map : ∀ e ∈ next.map, e.2 < next.sessions.length)
    (sockets : m.sockets.length ≤ next.sockets.length) (tasks : m.tasks.length ≤ next.tasks.length)
    (forwarder : ∀ k < next.sockets.length,
      k < m.sockets.length ∧ (next.socket k).forwarder = (m.socket k).forwarder ∨
      (next.socket k).forwarder < next.tasks.length ∧
        IsForwarder (next.frames (next.socket k).forwarder))
    (frames : ∀ u, Elsewhere m next u ∨ (∀ f ∈ next.frames u, f.Within next) ∧
      (u < m.tasks.length → IsForwarder (m.frames u) → IsForwarder (next.frames u))) :
    Present next := by
  refine ⟨fun u f member => ?_, map, fun k bound => ?_⟩
  · rcases frames u with (kept | ⟨_, _, loose⟩ | ⟨_, broken⟩) | ⟨within, _⟩
    · exact (present.frames u f (kept ▸ member)).mono sessions sockets
    · exact loose f member
    · rw [broken] at member; cases member
    · exact within f member
  · rcases forwarder k bound with ⟨old, same⟩ | fresh
    · obtain ⟨known, forwards⟩ := present.forwarder k old
      rw [same]
      refine ⟨Nat.lt_of_lt_of_le known tasks, ?_⟩
      rcases frames (m.socket k).forwarder with (kept | ⟨beyond, _⟩ | ⟨_, broken⟩) | ⟨_, still⟩
      · rw [kept]; exact forwards
      · exact absurd known (Nat.not_lt_of_le beyond)
      · rw [broken]; exact fun f member => nomatch member
      · exact still known forwards
    · exact fresh

theorem Turned.of_takes (present : Present m) (stack : m.frames t = a :: rest)
    (taken : Takes setup m t a made new) :
    Turned m t a rest new (made.updateTask t fun task => { task with frames := new ++ rest }) ∧
      Present (made.updateTask t fun task => { task with frames := new ++ rest }) := by
  have there : t < m.tasks.length := lt_of_mem_frames (stack ▸ List.mem_cons_self)
  have within := present.frames t
  rw [stack] at within
  obtain ⟨inert, fresh⟩ := taken.inert present (within a List.mem_cons_self)
  have still : t < made.tasks.length := Nat.lt_of_lt_of_le there inert.tasks
  have replaced := (frames_updateTask (m := made) (t := t)
    (fun task => { task with frames := new ++ rest }) t).trans (if_pos ⟨rfl, still⟩)
  have same : ∀ u, u ≠ t → (made.updateTask t fun task =>
      { task with frames := new ++ rest }).frames u = made.frames u :=
    fun u other => (frames_updateTask _ u).trans (if_neg fun both => other both.1)
  have others : ∀ u, u ≠ t → Elsewhere m
      (made.updateTask t fun task => { task with frames := new ++ rest }) u := by
    intro u other
    exact (inert.elsewhere u).mono (same u other) (Nat.le_refl _) (Nat.le_refl _)
  have move := taken.move (within a List.mem_cons_self)
  have tends := fun s => taken.tends (s := s) (within a List.mem_cons_self)
  rw [← same m.tasks.length (Nat.ne_of_gt there)] at tends
  refine ⟨⟨stack, replaced, others, move, tends, inert.fate⟩, ?_⟩
  refine present.preserved inert.sessions inert.map (Nat.le_of_eq inert.sockets.symm) ?_ ?_ fun u => ?_
  · exact Nat.le_trans inert.tasks (Nat.le_of_eq (List.length_modify ..).symm)
  · exact fun k bound => .inl ⟨Nat.lt_of_lt_of_eq bound inert.sockets, inert.forwarder k⟩
  · by_cases here : u = t
    · subst u
      rw [replaced, stack]
      refine .inr ⟨fun f member => ?_, fun _ forwards f member => ?_⟩
      · rcases List.mem_append.1 member with added | old
        · exact (fresh f added).mono (Nat.le_refl _) (Nat.le_refl _)
        · exact (within f (List.mem_cons_of_mem _ old)).mono inert.sessions
            (Nat.le_of_eq inert.sockets.symm)
      · obtain ⟨j, rfl⟩ := forwards a List.mem_cons_self
        rcases List.mem_append.1 member with added | old
        · exact forward_new taken f added
        · exact forwards f (List.mem_cons_of_mem _ old)
    · exact .inl (others u here)

theorem fate_append (server : Server) :
    ({ m with servers := m.servers ++ [server] } : Machine).fate =
      Function.update m.fate m.servers.length server.fate := by
  funext p
  simp only [fate, Machine.server, List.getD_eq_getElem?_getD, List.getElem?_append]
  by_cases old : p < m.servers.length
  · rw [Function.update_of_ne (Nat.ne_of_lt old)]
    simp [fate, Machine.server, List.getD_eq_getElem?_getD, old]
  · by_cases last : p = m.servers.length
    · subst p; simp
    · have after := Nat.lt_of_le_of_ne (Nat.le_of_not_lt old) (Ne.symm last)
      have beyond : ([server] : List Server)[p - m.servers.length]? = none :=
        List.getElem?_eq_none (Nat.succ_le_of_lt (Nat.sub_pos_of_lt after))
      rw [Function.update_of_ne last]
      simp [fate, Machine.server, List.getD_eq_getElem?_getD, old, beyond]

theorem fate_of_length_le (beyond : m.servers.length ≤ p) : m.fate p = ⟨none, .alive, none⟩ := by
  simp only [fate, Machine.server, List.getD_eq_getElem?_getD, List.getElem?_eq_none beyond]
  rfl

-- What a start makes, before its frames take their place on the stack.
structure Made (m : Machine) (s : SessionId) (made : Machine) : Prop where
  custody : made.custody = Function.update m.custody s
    { m.custody s with slot := some ⟨(m.custody s).generation, m.servers.length⟩ }
  fate : made.fate = Function.update m.fate m.servers.length ⟨some s, .alive, none⟩
  frames : ∀ u, made.frames u =
    if u = m.tasks.length + 1 then [.awaitExit s (m.custody s).generation m.servers.length]
    else if u = m.tasks.length then [.pump s m.servers.length] else m.frames u
  tasks : made.tasks.length = m.tasks.length + 2
  sessions : made.sessions.length = m.sessions.length
  map : made.map = m.map
  sockets : made.sockets = m.sockets

theorem length_addTask (frames : List Activity) :
    (m.addTask frames).tasks.length = m.tasks.length + 1 := List.length_append ..

theorem Made.of_installed {after : AfterStart} {limit : Nat} (there : s < m.sessions.length)
    (launched : m.installed s after (.start (some s) limit) = some (made, new)) :
    Made m s made ∧ ∃ inner, (∀ f ∈ inner, f.role = .inner ∧ f.Within m) ∧
      new = inner ++ [.started s after m.servers.length] := by
  cases launched
  refine ⟨⟨?_, ?_, fun u => ?_, ?_, ?_, rfl, rfl⟩, [_, _], ?_, rfl⟩
  · exact custody_updateSession (m := { m with servers := m.servers ++ [_] }) there _
  · exact fate_append _
  · rw [frames_addTask, frames_addTask, length_addTask]; rfl
  · simp [addTask, updateSession]
  · simp [addTask, updateSession]
  · simp [Activity.role, Activity.Within, there]

theorem Started.of_installed {after : AfterStart} {limit : Nat} (present : Present m)
    (stack : m.frames t = .spawn s after :: rest)
    (launched : m.installed s after (.start (some s) limit) = some (made, new)) :
    Started m t s after rest (made.updateTask t fun task => { task with frames := new ++ rest }) ∧
      Present (made.updateTask t fun task => { task with frames := new ++ rest }) := by
  have there : t < m.tasks.length := lt_of_mem_frames (stack ▸ List.mem_cons_self)
  have within := present.frames t
  rw [stack] at within
  have known : s < m.sessions.length := within _ List.mem_cons_self
  obtain ⟨parts, inner, light, rfl⟩ := Made.of_installed known launched
  have still : t < made.tasks.length := by rw [parts.tasks]; exact Nat.lt_add_right 2 there
  have others : ∀ u, u ≠ t → (made.updateTask t fun task => { task with
      frames := inner ++ [.started s after m.servers.length] ++ rest }).frames u = made.frames u :=
    fun u other => (frames_updateTask _ u).trans (if_neg fun both => other both.1)
  have replaced : (made.updateTask t fun task => { task with
      frames := inner ++ [.started s after m.servers.length] ++ rest }).frames t =
      inner ++ .started s after m.servers.length :: rest := by
    rw [frames_updateTask, if_pos ⟨rfl, still⟩, List.append_assoc]; rfl
  have pump : m.tasks.length ≠ t := Nat.ne_of_gt there
  have awaits : m.tasks.length + 1 ≠ t := Nat.ne_of_gt (Nat.lt_succ_of_lt there)
  have mono : ∀ f : Activity, f.Within m → f.Within made := fun f here =>
    here.mono (Nat.le_of_eq parts.sessions.symm) (Nat.le_of_eq (by rw [parts.sockets]))
  refine ⟨⟨stack, ⟨inner, fun f member => (light f member).1, replaced⟩, ?_, ?_, ?_, parts.custody,
    parts.fate⟩, ?_⟩
  · rw [others _ pump, parts.frames, if_neg (Nat.ne_of_lt (Nat.lt_succ_self _)), if_pos rfl]
  · rw [others _ awaits, parts.frames, if_pos rfl]
  · intro u other first second
    rw [others u other, parts.frames, if_neg second, if_neg first]
  have sessions : m.sessions.length ≤ (made.updateTask t fun task => { task with
      frames := inner ++ [.started s after m.servers.length] ++ rest }).sessions.length :=
    Nat.le_of_eq parts.sessions.symm
  refine present.preserved sessions ?_
    (Nat.le_of_eq (congrArg List.length parts.sockets.symm)) ?_ (fun k bound => ?_) fun u => ?_
  · show ∀ e ∈ made.map, e.2 < made.sessions.length
    rw [parts.map, parts.sessions]; exact present.map
  · show _ ≤ (made.tasks.modify t _).length
    rw [List.length_modify, parts.tasks]; exact Nat.le_add_right _ 2
  · refine .inl ⟨Nat.lt_of_lt_of_eq bound (congrArg List.length parts.sockets), ?_⟩
    show (made.socket k).forwarder = _
    simp only [socket, parts.sockets]
  · by_cases here : u = t
    · subst u
      rw [replaced, stack]
      refine .inr ⟨fun f member => ?_, fun _ forwards => absurd (forwards _ List.mem_cons_self) (by simp)⟩
      rcases List.mem_append.1 member with added | old
      · exact mono f (light f added).2
      · rcases List.mem_cons.1 old with rfl | old
        · exact mono (.started s after m.servers.length) known
        · exact mono f (within f (List.mem_cons_of_mem _ old))
    · rw [others u here, parts.frames]
      split
      · rename_i last
        refine .inr ⟨fun f member => ?_, fun before => absurd before (by rw [last]; exact Nat.not_succ_lt_self)⟩
        rw [List.mem_singleton.1 member]
        exact mono (.awaitExit s (m.custody s).generation m.servers.length) known
      · split
        · rename_i last
          refine .inr ⟨fun f member => ?_, fun before => absurd before (by rw [last]; exact Nat.lt_irrefl _)⟩
          rw [List.mem_singleton.1 member]
          exact mono (.pump s m.servers.length) known
        · exact .inl (.inl ((others u here).trans (by rw [parts.frames, if_neg ‹_›, if_neg ‹_›])))

-- What the world does to a server. Its exit is only recorded once its child has ended.
structure Aged (before after : Server) : Prop where
  session : after.session = before.session
  alive : after.child = .alive → after.fate = before.fate
  ended : before.exit.isSome → after.exit.isSome

theorem Aged.of_fate {before after : Server} (same : after.fate = before.fate) :
    Aged before after := by
  obtain ⟨session, child, exit⟩ : after.session = before.session ∧ after.child = before.child ∧
      after.exit = before.exit := by simpa [Server.fate] using same
  exact ⟨session, fun _ => same, fun ended => exit ▸ ended⟩

theorem Aged.write {before after : Server} {count : Nat} (written : before.write? count = some after) :
    Aged before after := by
  obtain ⟨_, _, _, _, rfl⟩ := Server.changes_write? written
  exact .of_fate rfl

theorem Aged.watch {before after : Server} {clock : Nat} {wake : Wake}
    (watched : before.watch? clock wake = some after) : Aged before after := by
  obtain ⟨_, ⟨code, gone, rfl⟩ | ⟨_, _, _, rfl, _⟩⟩ := Server.watch?_cases watched
  · exact ⟨rfl, fun alive => by simp [Server.record, gone] at alive, fun _ => rfl⟩
  · exact .of_fate rfl

theorem Aged.childReads {before after : Server} {count : Nat}
    (read : before.childReads? count = some after) : Aged before after := by
  obtain ⟨input, rfl⟩ := Server.changes_childReads? read
  exact .of_fate rfl

theorem Aged.childWrites {before after : Server} {bytes : Bytes}
    (written : before.childWrites? bytes = some after) : Aged before after := by
  rw [Server.childWrites?_eq written]
  exact .of_fate rfl

theorem Aged.childEnds {before after : Server} {code : Option Int}
    (ended : before.childEnds? code = some after) : Aged before after := by
  rw [(Server.childEnds?_eq ended).2]
  exact ⟨rfl, fun alive => (nomatch alive), fun exit => exit⟩

theorem fate_setServer_of_lt (there : p < m.servers.length) (server : Server) :
    (m.setServer p server).fate = Function.update m.fate p server.fate := by
  funext q
  by_cases here : q = p
  · subst q
    simp [fate, Machine.server, setServer, List.getD_eq_getElem?_getD, there]
  · simp [fate, Machine.server, setServer, List.getD_eq_getElem?_getD, Ne.symm here, here]

theorem Ambient.of_servers (present : Present m) (sessions : next.sessions = m.sessions)
    (map : next.map = m.map) (tasks : next.tasks = m.tasks)
    (sockets : next.sockets.length = m.sockets.length)
    (forwarder : ∀ k, (next.socket k).forwarder = (m.socket k).forwarder)
    (session : ∀ p, (next.fate p).session = (m.fate p).session)
    (alive : ∀ p, (next.fate p).child = .alive → next.fate p = m.fate p)
    (ended : ∀ p, (m.fate p).exit.isSome → (next.fate p).exit.isSome) :
    Ambient m next ∧ Present next := by
  have elsewhere : ∀ u, Elsewhere m next u := fun u => .inl (congrFun (frames_eq tasks) u)
  refine ⟨⟨elsewhere, custody_eq sessions, session, alive, ended⟩, ?_⟩
  refine present.preserved (Nat.le_of_eq (by rw [sessions])) ?_ (Nat.le_of_eq sockets.symm)
    (Nat.le_of_eq (by rw [tasks])) (fun k bound => .inl ⟨sockets ▸ bound, forwarder k⟩)
    fun u => .inl (elsewhere u)
  rw [map, sessions]; exact present.map

theorem Ambient.of_same (present : Present m) (sessions : next.sessions = m.sessions)
    (servers : next.fate = m.fate) (map : next.map = m.map) (tasks : next.tasks = m.tasks)
    (sockets : next.sockets.length = m.sockets.length)
    (forwarder : ∀ k, (next.socket k).forwarder = (m.socket k).forwarder) :
    Ambient m next ∧ Present next :=
  Ambient.of_servers present sessions map tasks sockets forwarder (fun p => by rw [servers])
    (fun p _ => by rw [servers]) fun p ended => by rw [servers]; exact ended

theorem Ambient.of_change {change : Server → Option Server} (present : Present m)
    (changed : m.changeServer p change = some next)
    (aged : ∀ after, change (m.server p) = some after → Aged (m.server p) after) :
    Ambient m next ∧ Present next := by
  unfold changeServer at changed
  split at changed
  · rename_i there
    obtain ⟨after, made, rfl⟩ := Option.map_eq_some_iff.1 changed
    have aged := aged after made
    have fates : ∀ q, q = p ∧ (m.setServer p after).fate q = after.fate ∨
        (m.setServer p after).fate q = m.fate q := by
      intro q
      rw [fate_setServer_of_lt there after]
      by_cases here : q = p
      · exact .inl ⟨here, here ▸ Function.update_self ..⟩
      · exact .inr (Function.update_of_ne here ..)
    refine Ambient.of_servers present rfl rfl rfl rfl (fun _ => rfl) (fun q => ?_) (fun q => ?_) fun q => ?_
    · rcases fates q with ⟨rfl, changed⟩ | same
      · rw [changed]; exact aged.session
      · rw [same]
    · rcases fates q with ⟨rfl, changed⟩ | same
      · rw [changed]; exact aged.alive
      · exact fun _ => same
    · rcases fates q with ⟨rfl, changed⟩ | same
      · rw [changed]; exact aged.ended
      · rw [same]; exact id
  · cases changed

theorem Ambient.addTask {frames : List Activity} (present : Present m) (loose : IsLoose frames)
    (within : ∀ f ∈ frames, f.Within m) : Ambient m (m.addTask frames) ∧ Present (m.addTask frames) := by
  have elsewhere : ∀ u, Elsewhere m (m.addTask frames) u := by
    intro u
    by_cases last : u = m.tasks.length
    · refine .inr (.inl ⟨Nat.le_of_eq last.symm, ?_⟩)
      rw [frames_addTask, if_pos last]
      exact ⟨loose, within⟩
    · exact .inl (by rw [frames_addTask, if_neg last])
  refine ⟨⟨elsewhere, rfl, fun _ => rfl, fun _ _ => rfl, fun _ ended => ended⟩, ?_⟩
  refine present.preserved (Nat.le_refl _) present.map (Nat.le_refl _) ?_
    (fun k bound => .inl ⟨bound, rfl⟩) fun u => .inl (elsewhere u)
  rw [length_addTask]; exact Nat.le_succ _

theorem Ambient.openSocket (present : Present m) (key : String) (connection : Connection) :
    Ambient m (m.openSocket key connection) ∧ Present (m.openSocket key connection) := by
  have frames : ∀ u, (m.openSocket key connection).frames u =
      if u = m.tasks.length + 1 then [.forward m.sockets.length]
      else if u = m.tasks.length then
        [.enter key m.connections.length none, .reportRefusal m.sockets.length,
          .listen m.sockets.length]
      else m.frames u := by
    intro u
    rw [Machine.openSocket, frames_addTask, frames_addTask, length_addTask]; rfl
  have length : (m.openSocket key connection).sockets.length = m.sockets.length + 1 := by
    simp [Machine.openSocket, Machine.addTask]
  have tasks : (m.openSocket key connection).tasks.length = m.tasks.length + 2 := by
    simp [Machine.openSocket, Machine.addTask]
  have elsewhere : ∀ u, Elsewhere m (m.openSocket key connection) u := by
    intro u
    rw [Elsewhere, frames]
    split
    · rename_i last
      refine .inr (.inl ⟨last ▸ Nat.le_succ _, .inl ⟨?_, List.forall_mem_nil _⟩, ?_⟩) <;>
        simp [Activity.role, Activity.Within, length]
    · split
      · rename_i last
        refine .inr (.inl ⟨last ▸ Nat.le_refl _, .inl ⟨?_, ?_⟩, ?_⟩) <;>
          simp [Activity.role, Activity.plans, Activity.Within, length]
      · exact .inl rfl
  refine ⟨⟨elsewhere, rfl, fun _ => rfl, fun _ _ => rfl, fun _ ended => ended⟩, ?_⟩
  refine present.preserved (Nat.le_refl _) present.map (length ▸ Nat.le_succ _)
    (tasks ▸ Nat.le_add_right _ 2) (fun k bound => ?_) fun u => .inl (elsewhere u)
  rcases Nat.lt_succ_iff_lt_or_eq.1 (Nat.lt_of_lt_of_eq bound length) with old | rfl
  · exact .inl ⟨old, by simp [Machine.openSocket, Machine.addTask, socket, List.getElem?_append, old]⟩
  · have forwarder : ((m.openSocket key connection).socket m.sockets.length).forwarder =
        m.tasks.length + 1 := by
      simp [Machine.openSocket, Machine.addTask, socket]
    rw [forwarder, frames, tasks]
    exact .inr ⟨Nat.lt_succ_self _, by simp [IsForwarder]⟩

theorem loose_frames (operation : Operation) : IsLoose operation.frames := by
  cases operation with
  | stop p grace => exact .inr ⟨p, grace, rfl⟩
  | _ => exact .inl ⟨by simp [Operation.frames, Activity.role], List.forall_mem_nil _⟩

theorem within_frames {operation : Operation} (known : operation.isKnown m) :
    ∀ f ∈ operation.frames, f.Within m := by
  cases operation <;> simp_all [Operation.isKnown, Operation.frames, Activity.Within]

theorem Ambient.of_advance (present : Present m) (outside : event.task? = none)
    (moved : m.advance setup event = some next) : Ambient m next ∧ Present next := by
  cases event with
  | run | launch | attend => cases outside
  | call operation =>
    simp only [advance] at moved
    split at moved <;> cases moved
    exact Ambient.addTask present (loose_frames operation) (within_frames ‹_›)
  | connect capacity =>
    obtain rfl := connect_eq moved
    exact Ambient.of_same present rfl rfl rfl rfl rfl fun _ => rfl
  | receive c =>
    obtain ⟨r, _, rfl⟩ := Option.map_eq_some_iff.1 moved
    exact Ambient.of_same present rfl rfl rfl rfl rfl fun _ => rfl
  | hangUp c => cases moved; exact Ambient.of_same present rfl rfl rfl rfl rfl fun _ => rfl
  | openSocket key => obtain rfl := openSocket_eq moved; exact Ambient.openSocket present key _
  | incoming k frame =>
    simp only [advance] at moved
    split at moved <;> cases moved
    exact Ambient.of_same present rfl rfl rfl rfl (List.length_modify ..)
      (forwarder_updateSocket fun _ => rfl)
  | collect k =>
    simp only [advance] at moved
    split at moved <;> cases moved
    exact Ambient.of_same present rfl rfl rfl rfl (List.length_modify ..)
      (forwarder_updateSocket fun _ => rfl)
  | startAlone queueLimit =>
    simp only [advance] at moved
    split at moved <;> cases moved
    · obtain ⟨_, rfl⟩ := start?_eq_some.1 ‹_›
      refine Ambient.of_same present rfl ?_ rfl rfl rfl fun _ => rfl
      rw [fate_append]
      exact (congrArg _ (fate_of_length_le (Nat.le_refl _)).symm).trans (Function.update_eq_self _ _)
    · exact Ambient.of_same present rfl rfl rfl rfl rfl fun _ => rfl
  | release p =>
    simp only [advance] at moved
    refine Ambient.of_change present moved fun after made => ?_
    cases made
    exact .of_fate rfl
  | write p count =>
    simp only [advance] at moved
    exact Ambient.of_change present moved fun _ => .write
  | watch p wake =>
    simp only [advance] at moved
    exact Ambient.of_change present moved fun _ => .watch
  | childReads p count =>
    simp only [advance] at moved
    exact Ambient.of_change present moved fun _ => .childReads
  | childWrites p bytes =>
    simp only [advance] at moved
    exact Ambient.of_change present moved fun _ => .childWrites
  | inputCloses p | outputCloses p =>
    simp only [advance] at moved
    refine Ambient.of_change present moved fun after made => ?_
    cases made
    exact .of_fate rfl
  | childEnds p code =>
    simp only [advance] at moved
    exact Ambient.of_change present moved fun _ => .childEnds
  | strayEnds place =>
    simp only [advance] at moved
    split at moved <;> cases moved
    exact Ambient.of_same present rfl rfl rfl rfl rfl fun _ => rfl
  | tick milliseconds => cases moved; exact Ambient.of_same present rfl rfl rfl rfl rfl fun _ => rfl

theorem advance_transition (present : Present m) (moved : m.advance setup event = some next) :
    Transition m event next ∧ Present next := by
  rcases advance_cases moved with ⟨t, a, rest, made, new, step, stack, taken, rfl⟩ |
    ⟨t, s, after, rest, made, new, rfl, stack, _, launched, rfl⟩ | outside
  · obtain ⟨turned, still⟩ := Turned.of_takes present stack taken
    exact ⟨.turned step turned, still⟩
  · obtain ⟨started, still⟩ := Started.of_installed present stack launched
    exact ⟨.started rfl started, still⟩
  · obtain ⟨ambient, still⟩ := Ambient.of_advance present outside moved
    exact ⟨.ambient outside ambient, still⟩

theorem present_initial : Present initial := by
  refine ⟨fun u f member => ?_, fun e member => (nomatch member), fun k bound => (nomatch bound)⟩
  exact absurd (lt_of_mem_frames member) (Nat.not_lt_zero _)

end LanguageRelay.Machine
