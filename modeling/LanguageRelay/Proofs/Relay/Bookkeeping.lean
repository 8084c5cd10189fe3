import LanguageRelay.Proofs.Relay.Standing
namespace LanguageRelay

theorem ServerExit.isClean_iff {exit : ServerExit} (unasked : ¬ exit.requested) :
    exit.isClean ↔ exit.code = some 0 := by
  simp [isClean, unasked]

def Event.wakes (p : ServerId) : Event → Bool
  | .watch q _ => q == p
  | _ => false

theorem Event.eq_of_wakes {p : ServerId} {event : Event} (wakes : event.wakes p) :
    ∃ wake, event = .watch p wake := by
  cases event with
  | watch q wake => exact ⟨wake, by rw [beq_iff_eq.1 wakes]⟩
  | _ => cases wakes

namespace Activity

def awaits? : Activity → Option ServerId
  | .awaitExit _ _ p | .awaitEnd p _ | .awaitKilled p => some p
  | _ => none

def brings? : Activity → Option ServerExit
  | .vacate _ _ exit | .abandon _ exit => some exit
  | _ => none

end Activity

namespace Machine

namespace Step

def Dismisses (step : Step) (p : ServerId) : Prop := step.event = .release p ∨ step.Terminates p

-- A task that waits for the exit of the server is handed one.
def Hands (step : Step) (p : ServerId) (exit : ServerExit) : Prop :=
  ∃ t f g rest, step.event.task? = some t ∧ step.before.frames t = f :: rest ∧ f.awaits? = some p ∧
    step.after.frames t = g :: rest ∧ g.brings? = some exit

-- Nobody does anything but the watcher of the server, and time passes. The child ends only once the watcher
-- has killed it.
def LeavesAlone (step : Step) (p : ServerId) : Prop :=
  match step.event with
  | .watch q _ => q = p
  | .childEnds q code => q = p ∧ code = none ∧ (step.before.server p).watcher = .killing
  | .tick _ => True
  | _ => False

end Step

def Dismissed (taken : List Step) (p : ServerId) : Prop := ∃ step ∈ taken, step.Dismisses p

-- The exit has been recorded in one step only. It was asked for if the server had been told to stop by
-- then, and only if it had been told to stop or given up; if neither, the code of the child alone decides
-- whether it is clean.
def Filed (taken : List Step) (p : ServerId) (exit : ServerExit) : Prop :=
  ∃ front step back, taken = front ++ step :: back ∧ step.Records p exit ∧
    (∀ other ∈ front ++ back, ∀ another, ¬ other.Records p another) ∧
    (exit.requested → Dismissed front p) ∧
    ((∃ other ∈ front, other.Terminates p) → exit.requested) ∧
    (¬ Dismissed front p → (exit.isClean ↔ exit.code = some 0))

variable {m made next : Machine} {setup : Setup} {event : Event} {events : List Event} {t u : TaskId}
  {s : SessionId} {p : ServerId} {a f : Activity} {rest new : List Activity} {taken : List Step}
  {exit : ServerExit} {server : Server}

theorem Takes.awaiting (taken : Takes setup m t f made new) (awaits : f.awaits? = some p) :
    (∃ exit g, (m.server p).exit = some exit ∧ new = [g] ∧ g.brings? = some exit) ∨
    (m.server p).exit = none ∧ new = [.awaitKilled p] := by
  cases taken with
  | fails | breaks | attends => cases awaits
  | performs performed =>
    cases f with
    | awaitExit s g q =>
      cases awaits
      obtain ⟨exit, ended, pair⟩ := Option.map_eq_some_iff.1 performed
      cases pair
      exact .inl ⟨exit, _, ended, rfl, rfl⟩
    | awaitEnd q deadline =>
      cases awaits
      simp only [perform, awaitEnd] at performed
      split at performed
      · rename_i exit ended
        cases performed
        exact .inl ⟨exit, _, ended, rfl, rfl⟩
      · rename_i running
        split at performed <;> cases performed
        exact .inr ⟨running, rfl⟩
    | awaitKilled q =>
      cases awaits
      obtain ⟨exit, ended, pair⟩ := Option.map_eq_some_iff.1 performed
      cases pair
      exact .inl ⟨exit, _, ended, rfl, rfl⟩
    | _ => cases awaits

theorem Sound.hands (sound : Sound m) (moved : m.advance setup event = some next)
    (hands : Step.Hands ⟨m, event, next⟩ p exit) : (m.server p).exit = some exit := by
  obtain ⟨t, f, g, rest, step, stack, awaits, replaced, brings⟩ := hands
  have starts : ∀ s after, f ≠ .spawn s after := by
    rintro s after rfl; cases awaits
  obtain ⟨made, new, taken, after, _⟩ := sound.takes moved step stack starts
  rw [replaced] at after
  rcases taken.awaiting awaits with ⟨found, h, ended, rfl, own⟩ | ⟨_, rfl⟩
  · cases after
    rw [brings] at own
    rw [ended, own]
  · cases after
    cases brings

theorem Dismissed.later (dismissed : Dismissed taken p) (more : List Step) :
    Dismissed (taken ++ more) p := by
  obtain ⟨step, member, dismisses⟩ := dismissed
  exact ⟨step, List.mem_append_left _ member, dismisses⟩

theorem Dismissed.last {step : Step} (dismisses : step.Dismisses p) : Dismissed (taken ++ [step]) p :=
  ⟨step, by simp, dismisses⟩

theorem Filed.later {step : Step} (filed : Filed taken p exit)
    (stays : ∀ another, ¬ step.Records p another) : Filed (taken ++ [step]) p exit := by
  obtain ⟨front, records, back, rfl, own, once, requested⟩ := filed
  refine ⟨front, records, back ++ [step], by simp, own, fun other member => ?_, requested⟩
  rw [← List.append_assoc] at member
  rcases List.mem_append.1 member with old | last
  · exact once other old
  · rw [List.mem_singleton.1 last]; exact stays

structure Booked (m : Machine) (taken : List Step) (p : ServerId) : Prop where
  finished : (m.server p).watcher = .finished → (m.server p).exit.isSome
  stopped : (m.server p).stopRequested → Dismissed taken p
  killed : (m.server p).killRequested → Dismissed taken p
  ending : ∀ u, ∀ f ∈ m.frames u, f.role = .finishing p →
    p < m.servers.length ∧ ((∃ grace, f = .stop p grace) ∨ Dismissed taken p)
  marked : (∃ step ∈ taken, step.Terminates p) → (m.server p).stopRequested
  filed : ∀ exit, (m.server p).exit = some exit → Filed taken p exit
  records : ∀ step ∈ taken, ∀ exit, step.Records p exit → (m.server p).exit = some exit
  handed : ∀ step ∈ taken, ∀ exit, step.Hands p exit → (m.server p).exit = some exit

theorem Booked.ends (booked : Booked m taken p) (sound : Sound m)
    (moved : m.advance setup event = some next) :
    ∀ u, ∀ f ∈ next.frames u, f.role = .finishing p → p < next.servers.length ∧
      ((∃ grace, f = .stop p grace) ∨ Dismissed (taken ++ [⟨m, event, next⟩]) p) := by
  intro u f member part
  have more := (sound.happens moved).length_servers
  rcases sound.finishing moved member part with old | ⟨a, rest, step, stack, same⟩ | ⟨stop, there⟩
  · obtain ⟨there, why⟩ := booked.ending u f old part
    exact ⟨Nat.lt_of_lt_of_le there more, why.imp_right fun dismissed => dismissed.later _⟩
  · obtain ⟨there, why⟩ := booked.ending u a (stack ▸ List.mem_cons_self) same
    refine ⟨Nat.lt_of_lt_of_le there more, .inr ?_⟩
    rcases why with ⟨grace, rfl⟩ | dismissed
    · exact .last (.inr ⟨u, grace, step, rest, stack⟩)
    · exact dismissed.later _
  · exact ⟨Nat.lt_of_lt_of_le there more, .inl stop⟩

theorem Booked.advance (booked : Booked m taken p) (watched : Watched m) (sound : Sound m)
    (moved : m.advance setup event = some next) : Booked next (taken ++ [⟨m, event, next⟩]) p := by
  have enters := (sound.happens moved).enters p
  have kept := (endures_advance watched.recorded (sound.happens moved) p).kept
  have known : ∀ {step}, step ∈ taken ++ [⟨m, event, next⟩] → step ∈ taken ∨ step = ⟨m, event, next⟩ :=
    fun member => (List.mem_append.1 member).imp_right List.mem_singleton.1
  refine ⟨enters.finished booked.finished, fun marked => ?_, fun marked => ?_,
    booked.ends sound moved, ?_, fun exit ended => ?_, fun step member exit records => ?_,
    fun step member exit hands => ?_⟩
  · rcases enters.stopped marked with before | asked | terminates
    · exact (booked.stopped before).later _
    · exact (booked.killed asked).later _
    · exact .last (.inr terminates)
  · rcases enters.killed marked with before | released | ⟨t, deadline, _, rest, stack⟩
    · exact (booked.killed before).later _
    · exact .last (.inl released)
    · rcases (booked.ending t _ (stack ▸ List.mem_cons_self) rfl).2 with ⟨_, stop⟩ | dismissed
      · cases stop
      · exact dismissed.later _
  · rintro ⟨step, member, terminates⟩
    rcases known member with old | rfl
    · exact enters.marked (booked.marked ⟨step, old, terminates⟩)
    · obtain ⟨t, grace, _, rest, stack⟩ := id terminates
      have there := (booked.ending t _ (stack ▸ List.mem_cons_self) rfl).1
      exact sound.stopRequested moved there terminates
  · cases before : (m.server p).exit with
    | some other =>
      have same := (kept other before).symm.trans ended
      cases same
      refine (booked.filed exit before).later ?_
      rintro another ⟨running, _⟩
      exact absurd before (by rw [running]; nofun)
    | none =>
      have requested := enters.requested ⟨before, ended⟩
      have asked : exit.requested → Dismissed taken p :=
        fun asked => booked.stopped (requested.symm.trans asked)
      refine ⟨taken, ⟨m, event, next⟩, [], rfl, ⟨before, ended⟩, ?_, asked, fun terminated => ?_,
        fun never => ServerExit.isClean_iff fun yes => never (asked yes)⟩
      · rw [List.append_nil]
        intro other member another records
        have found := booked.records other member another records
        rw [before] at found; cases found
      · exact requested.trans (booked.marked terminated)
  · rcases known member with old | rfl
    · exact kept exit (booked.records step old exit records)
    · exact records.2
  · rcases known member with old | rfl
    · exact kept exit (booked.handed step old exit hands)
    · exact kept exit (sound.hands moved hands)

theorem booked_initial (p : ServerId) : Booked initial [] p := by
  have fresh : initial.server p = default := rfl
  refine ⟨by rw [fresh]; nofun, by rw [fresh]; nofun, by rw [fresh]; nofun, fun u f member => ?_,
    fun terminated => ?_, by rw [fresh]; nofun, fun step member => ?_, fun step member => ?_⟩
  · rw [frames_initial] at member; cases member
  · obtain ⟨step, member, _⟩ := terminated
    cases member
  · cases member
  · cases member

theorem Booked.runs (ran : initial.runs setup events = some m) (p : ServerId) :
    Watched m ∧ Booked m (initial.steps setup events) p := by
  refine sound_initial.induction (motive := fun taken now => Watched now ∧ Booked now taken p) ran
    ⟨watched_initial, booked_initial p⟩ ?_
  rintro taken before event after sound moved ⟨watched, booked⟩
  exact ⟨watched.advance sound (sound.happens moved), booked.advance watched sound moved⟩

theorem server_setServer (there : p < m.servers.length) (server : Server) :
    (m.setServer p server).server p = server := by
  have changed : (m.setServer p server).servers = m.servers.set p server := rfl
  rw [server_set changed, if_pos ⟨rfl, there⟩]

theorem advance_watch {wake : Wake} (there : p < m.servers.length)
    (woke : (m.server p).watch? m.clock wake = some server) :
    m.advance setup (.watch p wake) = some (m.setServer p server) := by
  simp [advance, changeServer, there, woke]

theorem watch?_of_advance {wake : Wake} (moved : m.advance setup (.watch p wake) = some next) :
    (m.server p).watch? m.clock wake = some (next.server p) := by
  simp only [advance, changeServer] at moved
  split at moved
  · rename_i there
    obtain ⟨server, woke, rfl⟩ := Option.map_eq_some_iff.1 moved
    rw [woke, server_setServer there]
  · cases moved

theorem Sound.wakesLeft (sound : Sound m) (ran : m.runs setup events = some next) (p : ServerId) :
    (next.server p).wakesLeft + events.countP (Event.wakes p) ≤ (m.server p).wakesLeft := by
  induction events generalizing m with
  | nil => cases ran; exact Nat.le_refl _
  | cons event rest ih =>
    obtain ⟨made, moved, onward⟩ := Option.bind_eq_some_iff.1 ran
    have later := ih (sound.advance moved) onward
    rw [List.countP_cons]
    split
    · rename_i wakes
      obtain ⟨wake, rfl⟩ := Event.eq_of_wakes wakes
      have fewer := Server.wakesLeft_watch? (watch?_of_advance moved)
      omega
    · have fewer : (made.server p).wakesLeft ≤ (m.server p).wakesLeft :=
        ((sound.happens moved).enters p).wakesLeft
      omega

-- The watcher and time alone bring the server to this exit.
def Surfaces (setup : Setup) (m : Machine) (p : ServerId) (exit : ServerExit) : Prop :=
  ∃ more next, m.runs setup more = some next ∧ (∀ step ∈ m.steps setup more, step.LeavesAlone p) ∧
    (next.server p).exit = some exit

theorem Surfaces.here (ended : (m.server p).exit = some exit) : m.Surfaces setup p exit :=
  ⟨[], m, rfl, fun _ member => absurd member List.not_mem_nil, ended⟩

theorem Surfaces.before (moved : m.advance setup event = some made)
    (alone : Step.LeavesAlone ⟨m, event, made⟩ p) (surfaces : made.Surfaces setup p exit) :
    m.Surfaces setup p exit := by
  obtain ⟨more, next, ran, quiet, ended⟩ := surfaces
  refine ⟨event :: more, next, ?_, ?_, ended⟩
  · rw [runs, moved]; exact ran
  · simp only [steps, moved, List.forall_mem_cons]
    exact ⟨alone, quiet⟩

theorem Surfaces.watched {wake : Wake} (there : p < m.servers.length)
    (woke : (m.server p).watch? m.clock wake = some server)
    (surfaces : (m.setServer p server).Surfaces setup p exit) : m.Surfaces setup p exit :=
  surfaces.before (advance_watch there woke) rfl

-- The child writes what is no frame and is killed after some time. Then a message is offered to the server,
-- and somebody tells it to stop.
def malformed : List Event :=
  [.startAlone 1, .childWrites 0 [10], .call (.nextOutput 0), .run 0, .watch 0 .pipeBroken, .tick 500,
    .watch 0 .timeUp, .childEnds 0 none, .watch 0 .childEnded, .call (.offer 0 ⟨"{}"⟩), .call (.stop 0 10),
    .run 2, .run 2]

end Machine
end LanguageRelay
