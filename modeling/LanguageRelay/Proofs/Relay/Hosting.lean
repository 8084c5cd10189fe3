import LanguageRelay.Proofs.Relay.Eviction
import LanguageRelay.Proofs.Relay.Inlets
namespace LanguageRelay

def Activity.listens : Activity → Bool
  | .listen _ => true
  | _ => false

namespace Machine

-- What sockets are given is below the bound, and given to one socket only.
structure Numbered (m : Machine) (g : Socket → Nat) (bound : Nat) : Prop where
  below : ∀ k < m.sockets.length, g (m.socket k) < bound
  distinct : ∀ j < m.sockets.length, ∀ k < m.sockets.length, g (m.socket j) = g (m.socket k) → j = k

structure Hosts (m : Machine) : Prop where
  connections : Numbered m Socket.connection m.connections.length
  readers : Numbered m Socket.reader m.tasks.length
  listens : ∀ u k, .listen k ∈ m.frames u → u = (m.socket k).reader
  bottom : ∀ u, (m.frames u).Pairwise fun upper _ => upper.listens = false

variable {m made next : Machine} {setup : Setup} {event : Event} {events : List Event}
  {u : TaskId} {k : SocketId} {f : Activity} {rest new : List Activity}

theorem Sound.seat (sound : Sound m) (moved : m.advance setup event = some next)
    (there : k < m.sockets.length) : k < next.sockets.length ∧
      (next.socket k).key = (m.socket k).key ∧ (next.socket k).connection = (m.socket k).connection ∧
      (next.socket k).reader = (m.socket k).reader := by
  by_cases opens : ∃ key, event = .openSocket key
  · obtain ⟨key, rfl⟩ := opens
    obtain rfl := openSocket_eq moved
    have same := inlet_openSocket m key (.new setup.settings.clientQueue) k
    rw [if_neg (Nat.ne_of_lt there)] at same
    refine ⟨?_, congrArg Inlet.key same, congrArg Inlet.connection same, congrArg Inlet.reader same⟩
    exact Nat.lt_of_lt_of_eq (Nat.lt_succ_of_lt there) (length_openSocket key).symm
  · have seated := seated sound moved fun key here => opens ⟨key, here⟩
    exact ⟨seated.length ▸ there, seated.key k, seated.connection k, seated.reader k⟩

theorem Sound.opened (sound : Sound m) (moved : m.advance setup event = some next)
    (there : k < next.sockets.length) : k < m.sockets.length ∨
      ∃ key, event = .openSocket key ∧ k = m.sockets.length := by
  by_cases opens : ∃ key, event = .openSocket key
  · obtain ⟨key, rfl⟩ := opens
    obtain rfl := openSocket_eq moved
    have there : k < m.sockets.length + 1 := Nat.lt_of_lt_of_eq there (length_openSocket key)
    exact (Nat.lt_succ_iff_lt_or_eq.1 there).imp_right fun last => ⟨key, rfl, last⟩
  · have seated := seated sound moved fun key here => opens ⟨key, here⟩
    exact .inl (seated.length ▸ there)

theorem attend_of_listen (stack : m.frames u = .listen k :: rest) (step : event.task? = some u)
    (moved : m.advance setup event = some next) : ∃ attention made new,
      event = .attend u attention ∧ Attends m k attention made new ∧ next.frames u = new ++ rest := by
  have there : u < m.tasks.length := lt_of_mem_frames (stack ▸ List.mem_cons_self)
  have stack : (m.task u).frames = .listen k :: rest := stack
  cases event with
  | run | launch => cases step; simp [advance, turn, stack, perform] at moved
  | attend t attention =>
    cases step
    obtain ⟨a, below, made, new, first, taken, rfl⟩ := turn_cases moved
    cases stack.symm.trans first
    have attends := attends taken
    refine ⟨attention, made, new, rfl, attends, ?_⟩
    rw [frames_updateTask, if_pos]
    refine ⟨rfl, ?_⟩
    cases attends <;> exact there
  | _ => cases step

-- The step of a task leads to requests only where it has one on top.
theorem Sound.own (sound : Sound m) (moved : m.advance setup event = some next)
    (step : event.task? = some u) : ∃ a rest new, m.frames u = a :: rest ∧
      next.frames u = new ++ rest ∧ ∀ f ∈ new, f.isRequest → Follows m a f := by
  cases sound.happens moved with
  | @turned t a rest made new mine turned taken =>
    cases mine.symm.trans step
    exact ⟨a, rest, new, turned.stack, turned.replaced, fun f added => taken.follows added⟩
  | @started t s after rest launch started launches =>
    subst event
    cases step
    refine ⟨_, rest, [_, _, _], started.stack, launches.replaced, fun f added request => ?_⟩
    simp only [List.mem_cons, List.not_mem_nil, or_false] at added
    rcases added with rfl | rfl | rfl <;> cases request
  | ambient outside => rw [outside] at step; cases step

theorem Sound.others (sound : Sound m) (moved : m.advance setup event = some next)
    (other : event.task? ≠ some u) (member : f ∈ next.frames u) (request : f.isRequest) :
    f ∈ m.frames u ∨ (∃ operation, event = .call operation ∧ f ∈ operation.frames) ∨
      ∃ key, event = .openSocket key ∧ m.tasks.length ≤ u := by
  cases sound.arises moved member with
  | kept old => exact .inl old
  | stems step => exact absurd step other
  | begins _ _ _ begins =>
    rcases begins_cases begins with ⟨_, _, rfl⟩ | ⟨_, _, rfl⟩ | ⟨_, _, _, rfl⟩ <;> cases request
  | starts _ _ member =>
    simp only [startFrames, List.mem_cons, List.not_mem_nil, or_false] at member
    rcases member with rfl | rfl | rfl | rfl | rfl <;> cases request
  | asked asked _ member => exact .inr (.inl ⟨_, asked, member⟩)
  | opened opened beyond => exact .inr (.inr ⟨_, opened, beyond⟩)

theorem Sound.unmoved (sound : Sound m) (moved : m.advance setup event = some next)
    (other : event.task? ≠ some u) (there : u < m.tasks.length) :
    next.frames u = m.frames u ∨ IsForwarder (m.frames u) ∧ next.frames u = [] := by
  have unmoved (elsewhere : Elsewhere m next u) :
      next.frames u = m.frames u ∨ IsForwarder (m.frames u) ∧ next.frames u = [] := by
    rcases elsewhere with kept | ⟨beyond, _⟩ | broken
    · exact .inl kept
    · exact absurd there (Nat.not_lt_of_le beyond)
    · exact .inr broken
  cases sound.happens moved with
  | turned step turned =>
    refine unmoved (turned.elsewhere u ?_)
    rintro rfl
    exact other step
  | started launch started =>
    subst event
    refine .inl (started.elsewhere u ?_ (Nat.ne_of_lt there) (Nat.ne_of_lt (Nat.lt_succ_of_lt there)))
    rintro rfl
    exact other rfl
  | ambient _ ambient => exact unmoved (ambient.elsewhere u)

theorem not_listens_of_not (free : ∀ f ∈ new, f.listens = false) :
    new.Pairwise fun upper _ => upper.listens = false :=
  List.pairwise_iff_forall_sublist.2 fun {upper _} within => free upper (within.subset (by simp))

theorem Hosts.alone (hosts : Hosts m) (stack : m.frames u = .listen k :: rest) : rest = [] := by
  refine List.eq_nil_iff_forall_not_mem.2 fun f member => ?_
  have bottom := hosts.bottom u
  rw [stack] at bottom
  cases (List.pairwise_cons.1 bottom).1 f member

theorem listens_cases (listens : f.listens) : ∃ k, f = .listen k := by
  cases f with
  | listen k => exact ⟨k, rfl⟩
  | _ => cases listens

theorem operation_not_listens {operation : Operation} : ∀ f ∈ operation.frames, f.listens = false := by
  cases operation <;> simp [Operation.frames, Activity.listens]

theorem Sound.listens (sound : Sound m) (moved : m.advance setup event = some next)
    (member : .listen k ∈ next.frames u) : .listen k ∈ m.frames u ∨
      ∃ key, event = .openSocket key ∧ m.tasks.length ≤ u := by
  by_cases step : event.task? = some u
  · obtain ⟨a, rest, new, stack, replaced, follows⟩ := sound.own moved step
    rw [replaced] at member
    left
    rw [stack]
    rcases List.mem_append.1 member with added | under
    · cases follows _ added rfl
      exact List.mem_cons_self
    · exact List.mem_cons_of_mem _ under
  · rcases sound.others moved step member rfl with old | ⟨operation, _, inside⟩ | opened
    · exact .inl old
    · cases operation_not_listens _ inside
    · exact .inr opened

theorem Hosts.bottom_advance (hosts : Hosts m) (sound : Sound m)
    (moved : m.advance setup event = some next) (u : TaskId) :
    (next.frames u).Pairwise fun upper _ => upper.listens = false := by
  by_cases step : event.task? = some u
  · obtain ⟨a, rest, new, stack, replaced, follows⟩ := sound.own moved step
    have bottom := hosts.bottom u
    rw [stack] at bottom
    obtain ⟨top, under⟩ := List.pairwise_cons.1 bottom
    rw [replaced]
    by_cases listens : ∃ k, a = .listen k
    · obtain ⟨k, rfl⟩ := listens
      cases hosts.alone stack
      obtain ⟨attention, made, frames, _, attends, same⟩ := attend_of_listen stack step moved
      cases (List.append_cancel_right (replaced.symm.trans same))
      cases attends <;> simp [leaving, Activity.listens]
    · have free : ∀ f ∈ new, f.listens = false := by
        intro f added
        refine Bool.eq_false_iff.2 fun listening => ?_
        obtain ⟨k, rfl⟩ := listens_cases listening
        cases follows _ added rfl
        exact listens ⟨k, rfl⟩
      exact List.pairwise_append.2 ⟨not_listens_of_not free, under, fun f added _ _ => free f added⟩
  · by_cases there : u < m.tasks.length
    · rcases sound.unmoved moved step there with same | ⟨_, broken⟩
      · rw [same]; exact hosts.bottom u
      · rw [broken]; exact List.Pairwise.nil
    · by_cases opens : ∃ key, event = .openSocket key
      · obtain ⟨key, rfl⟩ := opens
        obtain rfl := openSocket_eq moved
        rw [frames_openSocket]
        split
        · exact List.pairwise_singleton ..
        · split
          · simp [Activity.listens]
          · exact hosts.bottom u
      · refine not_listens_of_not fun f member => Bool.eq_false_iff.2 fun listening => ?_
        obtain ⟨k, rfl⟩ := listens_cases listening
        rcases sound.listens moved member with old | ⟨key, opened, _⟩
        · exact there (lt_of_mem_frames old)
        · exact opens ⟨key, opened⟩

theorem Numbered.advance {g : Socket → Nat} {bound after : Nat} (numbered : Numbered m g bound)
    (kept : ∀ k < m.sockets.length, g (next.socket k) = g (m.socket k)) (grows : bound ≤ after)
    (cases : ∀ k < next.sockets.length, k < m.sockets.length ∨
      k = m.sockets.length ∧ g (next.socket k) = bound ∧ bound < after) : Numbered next g after := by
  have old {k : SocketId} (there : k < m.sockets.length) : g (next.socket k) < bound :=
    kept k there ▸ numbered.below k there
  refine ⟨fun k there => ?_, fun j first k second same => ?_⟩
  · rcases cases k there with before | ⟨_, given, more⟩
    · exact Nat.lt_of_lt_of_le (old before) grows
    · rw [given]; exact more
  · rcases cases j first with before | ⟨rfl, given, _⟩ <;>
      rcases cases k second with also | ⟨rfl, taken, _⟩
    · rw [kept j before, kept k also] at same
      exact numbered.distinct j before k also same
    · rw [taken] at same
      exact absurd (old before) (same ▸ Nat.lt_irrefl _)
    · rw [given] at same
      exact absurd (old also) (same ▸ Nat.lt_irrefl _)
    · rfl

theorem Hosts.advance (hosts : Hosts m) (sound : Sound m)
    (moved : m.advance setup event = some next) : Hosts next := by
  have bottom := hosts.bottom_advance sound moved
  have seat {k : SocketId} (there : k < m.sockets.length) := sound.seat moved there
  refine ⟨hosts.connections.advance (fun k there => (seat there).2.2.1) (sound.connections_le moved)
      fun k there => ?_,
    hosts.readers.advance (fun k there => (seat there).2.2.2) (sound.tasks_le moved)
      fun k there => ?_, fun u k member => ?_, bottom⟩
  · rcases sound.opened moved there with before | ⟨key, rfl, rfl⟩
    · exact .inl before
    · obtain rfl := openSocket_eq moved
      refine .inr ⟨rfl, (opened m key (.new setup.settings.clientQueue)).1, ?_⟩
      show m.connections.length < (m.connections ++ [_]).length
      rw [List.length_append]
      exact Nat.lt_succ_self _
  · rcases sound.opened moved there with before | ⟨key, rfl, rfl⟩
    · exact .inl before
    · obtain rfl := openSocket_eq moved
      refine .inr ⟨rfl, (opened m key (.new setup.settings.clientQueue)).2.1, ?_⟩
      rw [Machine.openSocket, length_addTask, length_addTask]
      exact Nat.lt_add_of_pos_right (Nat.succ_pos 1)
  · rcases sound.listens moved member with old | ⟨key, rfl, beyond⟩
    · rw [hosts.listens u k old, (seat (sound.present.frames u _ old)).2.2.2]
    · obtain rfl := openSocket_eq moved
      rw [frames_openSocket, frames_of_length_le beyond] at member
      split at member
      · cases List.mem_singleton.1 member
      · split at member
        · rename_i first
          simp only [List.mem_cons, List.not_mem_nil, or_false] at member
          rcases member with same | same | same <;> cases same
          exact first.trans (opened m key (.new setup.settings.clientQueue)).2.1.symm
        · cases member

theorem hosts_initial : Hosts initial := by
  refine ⟨⟨nofun, nofun⟩, ⟨nofun, nofun⟩, fun u k member => ?_, fun u => ?_⟩
  · rw [frames_initial] at member; cases member
  · rw [frames_initial]; exact List.Pairwise.nil

theorem Hosts.runs (ran : initial.runs setup events = some m) : Hosts m :=
  sound_initial.induction (motive := fun _ now => Hosts now) ran hosts_initial
    fun _ _ _ _ sound moved hosts => hosts.advance sound moved

theorem Hosts.keeps (hosts : Hosts m) (sound : Sound m) (moved : m.advance setup event = some next)
    (member : .listen k ∈ m.frames u) : .listen k ∈ next.frames u ∨
      m.frames u = [.listen k] ∧ next.frames u = m.leaving k := by
  rcases (advance_transition sound.present moved).1.kept member nofun with ⟨step, rest, stack⟩ | still
  · cases hosts.alone stack
    obtain ⟨attention, made, new, _, attends, replaced⟩ := attend_of_listen stack step moved
    rw [replaced]
    cases attends with
    | text | other => left; simp
    | close | leaves => exact .inr ⟨stack, List.append_nil _⟩
  · exact .inl still

end Machine
end LanguageRelay
