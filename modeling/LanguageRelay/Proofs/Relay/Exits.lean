import LanguageRelay.Proofs.Relay.States
namespace LanguageRelay

namespace Server

def IsRecorded (server : Server) : Prop := ∀ exit, server.exit = some exit →
  server.watcher = .finished ∧ server.child = .ended exit.code

-- What becomes of a server: what has been recorded of it stays.
structure Endures (server after : Server) : Prop where
  recorded : after.IsRecorded
  kept : ∀ exit, server.exit = some exit → after.exit = some exit

variable {server after : Server}

theorem Endures.of_same (recorded : server.IsRecorded) (watcher : after.watcher = server.watcher)
    (child : after.child = server.child) (exit : after.exit = server.exit) :
    server.Endures after := by
  refine ⟨?_, fun found => ?_⟩
  · unfold IsRecorded
    rw [watcher, child, exit]
    exact recorded
  · rw [exit]; exact id

theorem Endures.of_enqueue {command : Command} {taken : Bool} (recorded : server.IsRecorded)
    (put : server.enqueue? command = some (taken, after)) : server.Endures after := by
  obtain ⟨queue, rfl⟩ := changes_enqueue? put
  exact .of_same recorded rfl rfl rfl

theorem Endures.of_read {output : Output} (recorded : server.IsRecorded)
    (read : server.nextOutput = (output, after)) : server.Endures after := by
  obtain ⟨_, _, _, rfl⟩ := changes_nextOutput read
  exact .of_same recorded rfl rfl rfl

theorem Endures.of_write {count : Nat} (recorded : server.IsRecorded)
    (wrote : server.write? count = some after) : server.Endures after := by
  obtain ⟨_, _, _, _, rfl⟩ := changes_write? wrote
  exact .of_same recorded rfl rfl rfl

theorem Endures.of_watch {clock : Nat} {wake : Wake} (recorded : server.IsRecorded)
    (woke : server.watch? clock wake = some after) : server.Endures after := by
  obtain ⟨goesOn, what⟩ := watch?_cases woke
  have nothing : ∀ exit, server.exit ≠ some exit := fun exit found => goesOn (recorded exit found).1
  refine ⟨fun exit found => ?_, fun exit found => absurd found (nothing exit)⟩
  rcases what with ⟨code, gone, rfl⟩ | ⟨_, _, _, rfl, _⟩
  · cases found; exact ⟨rfl, gone⟩
  · exact absurd found (nothing exit)

theorem Endures.of_childEnds {code : Option Int} (recorded : server.IsRecorded)
    (ended : server.childEnds? code = some after) : server.Endures after := by
  obtain ⟨alive, rfl⟩ := childEnds?_eq ended
  have nothing : ∀ exit, server.exit ≠ some exit := by
    intro exit found
    rw [isAlive, (recorded exit found).2] at alive
    cases alive
  exact ⟨fun exit found => absurd found (nothing exit), fun _ => id⟩

end Server

namespace Machine

variable {m made next : Machine} {setup : Setup} {event : Event} {events : List Event} {t u : TaskId}
  {s r : SessionId} {p q : ServerId} {a f : Activity} {rest new : List Activity} {server : Server}
  {exit : ServerExit}

theorem Handles.endures (handles : Handles m a p server) (recorded : (m.server p).IsRecorded) :
    (m.server p).Endures server := by
  cases handles with
  | stop | kill | abandon => exact .of_same recorded rfl rfl rfl
  | finish put | enqueue put => exact .of_enqueue recorded put
  | pump read | next read => exact .of_read recorded read
  | pumpEnd read =>
    have after := Server.Endures.of_read recorded read
    exact ⟨after.recorded, after.kept⟩

theorem Serves.endures (serves : Serves m event p server) (recorded : (m.server p).IsRecorded) :
    (m.server p).Endures server := by
  cases serves with
  | released | inputCloses | outputCloses => exact .of_same recorded rfl rfl rfl
  | written wrote => exact .of_write recorded wrote
  | watched woke => exact .of_watch recorded woke
  | childReads read =>
    obtain ⟨input, rfl⟩ := Server.changes_childReads? read
    exact .of_same recorded rfl rfl rfl
  | childWrites put =>
    rw [Server.childWrites?_eq put]
    exact .of_same recorded rfl rfl rfl
  | childEnds ended => exact .of_childEnds recorded ended

theorem endures_advance (recorded : ∀ p, (m.server p).IsRecorded)
    (happens : Happens setup m event next) (p : ServerId) : (m.server p).Endures (next.server p) := by
  rcases happens.change p with
    same | ⟨session, limit, fresh, started⟩ | ⟨t, a, rest, _, _, handles⟩ | serves
  · rw [same]; exact .of_same (recorded p) rfl rfl rfl
  · rw [fresh, started]
    exact ⟨fun exit found => (nomatch found), fun exit found => nomatch found⟩
  · exact handles.endures (recorded p)
  · exact serves.endures (recorded p)

-- The frames that wait for the end of the server of one start, or bring it to the session.
structure Watched (m : Machine) : Prop where
  recorded : ∀ p, (m.server p).IsRecorded
  waits : ∀ s slot, (m.custody s).slot = some slot → ∃ u,
    .awaitExit s slot.generation slot.server ∈ m.frames u ∨
      ∃ exit, .vacate s slot.generation exit ∈ m.frames u
  own : ∀ u s g exit slot, .vacate s g exit ∈ m.frames u → (m.custody s).slot = some slot →
    slot.generation = g → (m.server slot.server).exit = some exit

theorem Takes.awaits {g : Nat} (taken : Takes setup m t (.awaitExit s g p) made new) :
    ∃ exit, (m.server p).exit = some exit ∧ new = [.vacate s g exit] := by
  cases taken with
  | performs performed =>
    obtain ⟨exit, ended, pair⟩ := Option.map_eq_some_iff.1 performed
    cases pair
    exact ⟨exit, ended, rfl⟩

theorem Watched.turned (watched : Watched m) (sound : Sound m)
    (happens : Happens setup m event next) (turned : Turned m t a rest new next)
    (taken : Takes setup m t a made new)
    (shape : next = made.updateTask t fun task => { task with frames := new ++ rest }) :
    Watched next := by
  have endures := endures_advance watched.recorded happens
  have occupied : ∀ {s slot}, (next.custody s).slot = some slot → (m.custody s).slot = some slot := by
    intro s slot found
    rcases turned.move.slot s with same | ⟨empty, _⟩
    · rw [← same]; exact found
    · rw [empty] at found; cases found
  refine ⟨fun p => (endures p).recorded, fun s slot found => ?_,
    fun u s g exit slot member found same => ?_⟩
  · obtain ⟨u, waits | ⟨exit, brings⟩⟩ := watched.waits s slot (occupied found)
    · rcases turned.kept waits (fun k same => nomatch same) with ⟨rfl, rfl⟩ | after
      · obtain ⟨exit, _, rfl⟩ := taken.awaits
        refine ⟨u, .inr ⟨exit, ?_⟩⟩
        rw [turned.replaced]; exact List.mem_cons_self
      · exact ⟨u, .inl after⟩
    · rcases turned.kept brings (fun k same => nomatch same) with ⟨rfl, rfl⟩ | after
      · have shifts := turned.shifts sound taken shape s
        generalize held : next.custody s = custody at shifts
        cases shifts with
        | vacated => rw [held] at found; cases found
        | stale other => exact absurd rfl (other slot (occupied found))
        | released freeing => cases freeing
        | aside other => exact absurd rfl other
      · exact ⟨u, .inr ⟨exit, after⟩⟩
  · apply (endures slot.server).kept
    rcases turned.old member (.inl rfl) with ⟨_, added⟩ | ⟨old, _⟩
    · obtain ⟨p, rfl, _⟩ := turned.move.comes _ added
      obtain ⟨exit, ended, rfl⟩ := taken.awaits
      cases List.mem_singleton.1 added
      have top : .awaitExit s g p ∈ m.frames t := turned.stack ▸ List.mem_cons_self
      rw [sound.accounted.awaits t s g p slot top (occupied found) same]
      exact ended
    · exact watched.own u s g exit slot old (occupied found) same

theorem Watched.started {after : AfterStart} (watched : Watched m) (sound : Sound m)
    (happens : Happens setup m event next) (started : Started m t r after rest next) :
    Watched next := by
  have endures := endures_advance watched.recorded happens
  refine ⟨fun p => (endures p).recorded, fun s slot found => ?_,
    fun u s g exit slot member found same => ?_⟩
  · rcases started.slot found with ⟨rfl, rfl⟩ | ⟨_, before⟩
    · refine ⟨m.tasks.length + 1, .inl ?_⟩
      rw [started.awaitExit]; exact List.mem_cons_self
    · obtain ⟨u, waits | ⟨exit, brings⟩⟩ := watched.waits s slot before
      · rcases started.kept waits with ⟨same, _⟩ | later
        · cases same
        · exact ⟨u, .inl later⟩
      · rcases started.kept brings with ⟨same, _⟩ | later
        · cases same
        · exact ⟨u, .inr ⟨exit, later⟩⟩
  · apply (endures slot.server).kept
    rcases started.watched sound.accounted member ⟨rfl, rfl⟩ with other | ⟨old, earlier⟩
    · cases other
    · rcases started.slot found with ⟨rfl, rfl⟩ | ⟨_, before⟩
      · exact absurd same (Nat.ne_of_gt (earlier rfl))
      · exact watched.own u s g exit slot old before same

theorem Watched.advance (watched : Watched m) (sound : Sound m)
    (happens : Happens setup m event next) : Watched next := by
  cases happens with
  | turned step turned taken leaves shape =>
    exact watched.turned sound (.turned step turned taken leaves shape) turned taken shape
  | started launch started launches =>
    exact watched.started sound (.started launch started launches) started
  | ambient world ambient outside =>
    have happens : Happens setup m event next := .ambient world ambient outside
    have endures := endures_advance watched.recorded happens
    have same := ambient.custody
    refine ⟨fun p => (endures p).recorded, fun s slot found => ?_,
      fun u s g exit slot member found own => (endures slot.server).kept exit ?_⟩
    · rw [same] at found
      obtain ⟨u, waits | ⟨exit, brings⟩⟩ := watched.waits s slot found
      · exact ⟨u, .inl ((ambient.elsewhere u).kept waits fun k same => nomatch same)⟩
      · exact ⟨u, .inr ⟨exit, (ambient.elsewhere u).kept brings fun k same => nomatch same⟩⟩
    · rw [same] at found
      exact watched.own u s g exit slot ((ambient.elsewhere u).old member (.inl rfl)) found own

theorem watched_initial : Watched initial := by
  have none : ∀ u, initial.frames u = [] := frames_initial
  refine ⟨fun p exit found => (nomatch found), fun s slot found => (nomatch found),
    fun u s g exit slot member => ?_⟩
  rw [none] at member; cases member

end Machine
end LanguageRelay
