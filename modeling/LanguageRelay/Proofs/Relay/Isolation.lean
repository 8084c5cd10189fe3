import LanguageRelay.Proofs.Relay.Errand
namespace LanguageRelay.Machine
variable {m made next : Machine} {setup : Setup} {event : Event} {events : List Event} {t u : TaskId}
  {s r : SessionId} {p : ServerId} {key : String} {a f : Activity} {above below rest new : List Activity}

-- The map finds sessions that are there, by their keys.
def Named (m : Machine) : Prop := ∀ key s, m.map.find? key = some s →
  s < m.sessions.length ∧ (m.session s).key = key

structure Apart (m next : Machine) (key : String) : Prop where
  session : ∀ r < m.sessions.length, (m.session r).key ≠ key → next.session r = m.session r
  server : ∀ p r, (m.fate p).session = some r → (m.session r).key ≠ key →
    next.server p = m.server p
  map : ∀ other, other ≠ key → next.map.find? other = m.map.find? other

def Keys (m : Machine) (key : String) (s : SessionId) : Prop :=
  s < m.sessions.length ∧ (m.session s).key = key

def About (m : Machine) (key : String) : Activity → Prop
  | .enter k _ _ | .findSession k _ _ => k = key
  | .subscribe s _ | .attach s _ | .newEpoch s _ | .look s _ | .begin s _ | .spawn s _ | .refused s _ _
  | .setState s _ | .broadcast s _ | .deliver s _ _ _ | .remove s _ | .tellState s _ | .notify s _ _
  | .route s _ _ => m.Keys key s
  | .started s _ p | .offer (.client s _) p _ | .enqueue (.client s _) p _ =>
    m.Keys key s ∧ (m.fate p).session = some s
  | .evict _ | .breakdown => True
  | _ => False

theorem Keys.mono (keys : m.Keys key s) (moved : m.advance setup event = some next) (sound : Sound m) :
    next.Keys key s := by
  have longer : m.sessions.length ≤ next.sessions.length := by
    cases enters moved with
    | kept _ _ same => exact Nat.le_of_eq same.symm
    | made _ _ _ _ _ _ more => rw [more]; exact Nat.le_succ _
    | announced _ _ _ _ same => exact Nat.le_of_eq same.symm
    | drained _ _ _ _ same => exact Nat.le_of_eq same.symm
  refine ⟨Nat.lt_of_lt_of_le keys.1 longer, ?_⟩
  rw [(sound.happens moved).key keys.1]
  exact keys.2

theorem About.mono (about : About m key f) (sound : Sound m)
    (moved : m.advance setup event = some next) : About next key f := by
  unfold About at about ⊢
  split at about
  all_goals first
    | exact about
    | exact Keys.mono about moved sound
    | exact ⟨about.1.mono moved sound, (sound.happens moved).owner about.2⟩

theorem Apart.refl : Apart m m key := ⟨fun _ _ _ => rfl, fun _ _ _ _ => rfl, fun _ _ => rfl⟩

theorem Apart.congr {after : Machine} (apart : Apart m next key)
    (sessions : after.sessions = next.sessions) (servers : after.servers = next.servers)
    (map : after.map = next.map) : Apart m after key := by
  refine ⟨fun r there other => ?_, fun p r own other => ?_, fun other ne => ?_⟩
  · rw [Machine.session, sessions]; exact apart.session r there other
  · rw [Machine.server, servers]; exact apart.server p r own other
  · rw [map]; exact apart.map other ne

theorem Apart.updateSession (apart : Apart m next key) (own : (m.session s).key = key)
    (f : Session → Session) : Apart m (next.updateSession s f) key := by
  refine ⟨fun r there other => ?_, apart.server, apart.map⟩
  have ne : r ≠ s := by rintro rfl; exact other own
  rw [session_updateSession_of_ne ne]
  exact apart.session r there other

theorem Apart.setServer (apart : Apart m next key) (own : (m.fate p).session = some s)
    (keys : (m.session s).key = key) (server : Server) : Apart m (next.setServer p server) key := by
  refine ⟨apart.session, fun q r mine other => ?_, apart.map⟩
  have ne : q ≠ p := by
    rintro rfl
    cases own.symm.trans mine
    exact other keys
  have same := server_set (rfl : (next.setServer p server).servers = next.servers.set p server) q
  rw [same, if_neg fun both => ne both.1]
  exact apart.server q r mine other

theorem Apart.updateTask (apart : Apart m next key) (u : TaskId) (f : Task → Task) :
    Apart m (next.updateTask u f) key := apart.congr rfl rfl rfl

theorem Apart.addTask (apart : Apart m next key) (frames : List Activity) :
    Apart m (next.addTask frames) key := apart.congr rfl rfl rfl

theorem Apart.answer (apart : Apart m next key) (reply : Reply) :
    Apart m (next.answer t reply) key := apart.congr rfl rfl rfl

theorem Apart.askListeners {result : Option Message} {direction : Direction} {message : Message}
    (asked : m.askListeners setup direction s message = (result, next)) : Apart m next key := by
  cases asked
  exact Apart.refl.congr rfl rfl rfl

theorem Apart.newSession :
    Apart m { m with sessions := m.sessions ++ [.new key], map := m.map.insert key m.sessions.length }
      key := by
  refine ⟨fun r there _ => ?_, fun _ _ _ _ => rfl, fun other ne => ?_⟩
  · simp [Machine.session, List.getElem?_append, there]
  · rw [Keyed.find?_insert, if_neg (Ne.symm ne)]

theorem keys_newSession (map : Keyed SessionId) :
    Keys { m with sessions := m.sessions ++ [.new key], map := map } key m.sessions.length := by
  refine ⟨?_, ?_⟩
  · show m.sessions.length < (m.sessions ++ [_]).length
    rw [List.length_append]
    exact Nat.lt_succ_self _
  · simp [Machine.session, Session.new]

theorem about_whenRunning {after : AfterStart} {isNew : Bool} (keys : m.Keys key s)
    (own : (m.fate p).session = some s) : ∀ f ∈ after.whenRunning s p isNew, About m key f := by
  intro f member
  cases after with
  | subscribed c =>
    cases isNew with
    | false => rw [List.mem_singleton.1 member]; exact keys
    | true => cases member
  | ensured => cases member
  | routing c message => rw [List.mem_singleton.1 member]; exact ⟨keys, own⟩

theorem about_visit {c : ConnectionId} {message : Option Message} (keys : m.Keys key s) :
    ∀ f ∈ visit s c message, About m key f := by
  intro f member
  rcases List.mem_cons.1 member with rfl | later
  · exact keys
  · cases message with
    | none => cases later
    | some message => rw [List.mem_singleton.1 later]; exact keys

theorem About.takes (about : About m key a) (sound : Sound m) (named : Named m)
    (taken : Takes setup m t a made new) : Apart m made key ∧
      ((∀ f ∈ new, About m key f) ∨ ∃ s c message, new = visit s c message ∧ made.Keys key s) := by
  have still : Apart m m key := .refl
  cases taken with
  | fails failed => cases failed; exact ⟨still, .inl (by simp [About, about.1, about.2, Keys])⟩
  | @breaks s _ _ _ _ broke =>
    cases broke
    have freed := still.updateSession about.2 fun session => { session with lock := none }
    exact ⟨freed.congr rfl rfl rfl, .inl (by simp [About])⟩
  | attends => exact about.elim
  | performs performed =>
    cases a with
    | broadcast s event | tellState s c =>
      cases performed
      exact ⟨still, .inl (by simp [About, about.1, about.2, Keys])⟩
    | deliver s pending gone event =>
      simp only [perform, Machine.deliver] at performed
      split at performed
      · cases performed
        refine ⟨still, .inl fun f member => ?_⟩
        split at member
        · cases member
        · rw [List.mem_singleton.1 member]; exact about
      · split at performed <;> cases performed
        · exact ⟨still.congr rfl rfl rfl, .inl (by simp [About, about.1, about.2, Keys])⟩
        · exact ⟨still, .inl (by simp [About, about.1, about.2, Keys])⟩
        · exact ⟨still, .inl (by simp [About, about.1, about.2, Keys])⟩
    | evict c => cases performed; exact ⟨still.congr rfl rfl rfl, .inl (by simp)⟩
    | remove s gone | setState s state =>
      cases performed
      exact ⟨still.updateSession about.2 _, .inl (by simp)⟩
    | notify s c text =>
      cases performed
      refine ⟨still, .inl fun f member => ?_⟩
      split at member
      · rw [List.mem_singleton.1 member]; exact about
      · cases member
    | look s after =>
      simp only [perform, Machine.look] at performed
      split at performed
      · cases performed
      · split at performed
        · cases performed
          exact ⟨still.updateSession about.2 _, .inl (by simp [About, about.1, about.2, Keys])⟩
        · rename_i slot occupied
          split at performed <;> cases performed
          · have own := sound.accounted.owned s slot occupied
            exact ⟨still.answer _, .inl (about_whenRunning about own)⟩
          · refine ⟨(still.updateSession about.2 _).updateSession about.2 _, .inl ?_⟩
            simp [publish, About, about.1, about.2, Keys]
    | begin s after =>
      simp only [perform, Machine.begin] at performed
      split at performed <;> cases performed
      · exact ⟨still, .inl (by simp [About, about.1, about.2, Keys])⟩
      · exact ⟨still.updateSession about.2 _, .inl (by simp [About, about.1, about.2, Keys])⟩
    | spawn | breakdown => cases performed
    | started s after p =>
      cases performed
      obtain ⟨keys, own⟩ := about
      exact ⟨(still.updateSession keys.2 _).answer _, .inl (about_whenRunning keys own)⟩
    | refused s after error =>
      cases performed
      refine ⟨(still.updateSession about.2 _).answer _, .inl fun f member => ?_⟩
      cases after with
      | routing c message => rw [List.mem_singleton.1 member]; exact about
      | _ => cases member
    | subscribe s c =>
      cases performed
      refine ⟨still, .inl fun f member => ?_⟩
      split at member
      · cases member
      · rw [List.mem_singleton.1 member]; exact about
    | attach s c =>
      simp only [perform, Machine.attach] at performed
      split at performed <;> cases performed
      · exact ⟨still, .inl (by simp)⟩
      · exact ⟨still.updateSession about.2 _, .inl (by simp [About, about.1, about.2, Keys])⟩
    | newEpoch s c =>
      cases performed
      exact ⟨still.updateSession about.2 _, .inl (by simp [About, about.1, about.2, Keys])⟩
    | route s c message =>
      simp only [perform, Machine.route] at performed
      split at performed <;> rename_i asked <;> cases performed
      · exact ⟨.askListeners asked, .inl (by simp)⟩
      · exact ⟨.askListeners asked, .inl (by simp [About, about.1, about.2, Keys])⟩
    | offer sender p message =>
      cases sender with
      | outside => exact about.elim
      | client s c =>
        obtain ⟨keys, own⟩ := about
        simp only [perform, Machine.offer] at performed
        split at performed <;> cases performed
        · exact ⟨still, .inl (by simp [About, keys, own])⟩
        · exact ⟨still, .inl (by simp [About, keys])⟩
    | enqueue sender p message =>
      cases sender with
      | outside => exact about.elim
      | client s c =>
        obtain ⟨keys, own⟩ := about
        simp only [perform, Machine.enqueue] at performed
        split at performed <;> cases performed
        · exact ⟨(still.setServer own keys.2 _).answer _, .inl (by simp)⟩
        · exact ⟨still, .inl (by simp [About, keys])⟩
    | enter k c message =>
      have asked := still.updateTask t fun task => { task with reply := none }
      simp only [perform, Machine.enter, Machine.refuse] at performed
      split at performed
      · cases performed; exact ⟨asked.answer _, .inl (by simp)⟩
      · split at performed <;> cases performed
        · exact ⟨asked.answer _, .inl (by simp)⟩
        · exact ⟨asked, .inl (by simpa [About] using about)⟩
    | findSession k c message =>
      cases about
      simp only [perform, Machine.findSession, Machine.refuse] at performed
      split at performed
      · cases performed
      · split at performed
        · cases performed; exact ⟨still.answer _, .inl (by simp)⟩
        · split at performed <;> rename_i found <;> cases performed
          · exact ⟨still, .inr ⟨_, c, message, rfl, named _ _ found⟩⟩
          · exact ⟨.newSession, .inr ⟨_, c, message, rfl, keys_newSession _⟩⟩
    | _ => exact about.elim

theorem Apart.spawned {after : AfterStart} (keys : m.Keys key s)
    (launched : m.installed s after (.start (some s) setup.settings.processQueue) = some (made, new)) :
    Apart m made key := by
  cases launched
  have added : Apart m { m with servers :=
      m.servers ++ [Server.start (some s) setup.settings.processQueue] } key := by
    refine ⟨fun _ _ _ => rfl, fun p r own other => ?_, fun _ _ => rfl⟩
    refine (server_append rfl p).trans (if_neg ?_)
    rintro rfl
    rw [fate_of_length_le (Nat.le_refl _)] at own
    cases own
  exact ((added.updateSession keys.2 _).addTask _).addTask _

theorem Named.advance (named : Named m) (sound : Sound m)
    (moved : m.advance setup event = some next) : Named next := by
  intro key s found
  have kept (map : next.map = m.map) : next.Keys key s :=
    Keys.mono (named key s (map ▸ found)) moved sound
  cases enters moved with
  | kept _ map _ => exact kept map
  | announced _ _ _ map _ => exact kept map
  | drained _ _ _ map _ => rw [map] at found; cases found
  | @made t k c message rest step stack running _ unknown map _ =>
    rw [map, Keyed.find?_insert] at found
    split at found
    · rename_i same
      subst same
      cases found
      obtain ⟨made, new, taken, _, _, rfl⟩ := sound.takes moved step stack nofun
      cases taken with
      | performs performed =>
        simp only [perform, Machine.findSession, running, unknown] at performed
        split at performed <;> cases performed
        exact keys_newSession (m.map.insert k m.sessions.length)
    · exact Keys.mono (named key s found) moved sound

theorem Named.runs (ran : initial.runs setup events = some m) : Named m :=
  sound_initial.induction (motive := fun _ now => Named now) ran (fun _ _ found => nomatch found)
    fun _ _ _ _ sound moved named => named.advance sound moved

theorem About.ne_forward (about : About m key f) (k : SocketId) : f ≠ .forward k := by
  rintro rfl
  exact about

-- A step of any task, while the task `t` works for the key above the frames `below`.
theorem about_advance (about : ∀ f ∈ above, About m key f) (occupied : above ≠ [])
    (stack : m.frames t = above ++ below) (sound : Sound m) (named : Named m)
    (moved : m.advance setup event = some next) :
    ∃ left, next.frames t = left ++ below ∧ (∀ f ∈ left, About next key f) ∧
      (event.task? = some t → Apart m next key) := by
  have still : ∀ f ∈ above, About next key f := fun f member => (about f member).mono sound moved
  by_cases own : event.task? = some t
  · obtain ⟨top, under, rfl⟩ := List.exists_cons_of_ne_nil occupied
    have ours : About m key top := about top List.mem_cons_self
    have lower : ∀ f ∈ under, About next key f :=
      fun f member => still f (List.mem_cons_of_mem _ member)
    rcases advance_cases moved with ⟨u, a, rest, made, new, step, first, taken, shape⟩ |
      ⟨u, s, after, rest, made, new, launch, first, fits, launched, shape⟩ | outside
    · cases own.symm.trans step
      cases stack.symm.trans first
      have turned := (Turned.of_takes sound.present first taken).1
      rw [← shape] at turned
      obtain ⟨apart, leads⟩ := ours.takes sound named taken
      refine ⟨new ++ under, by rw [turned.replaced, List.append_assoc]; rfl, fun f member => ?_,
        fun _ => shape ▸ apart.updateTask ..⟩
      rcases List.mem_append.1 member with added | kept
      · rcases leads with every | ⟨s, c, message, rfl, keys⟩
        · exact (every f added).mono sound moved
        · have keys : next.Keys key s := by rw [shape]; exact keys
          exact about_visit keys f added
      · exact lower f kept
    · cases (congrArg Event.task? launch).symm.trans own
      cases stack.symm.trans first
      have started := (Started.of_installed sound.present first launched).1
      have launches : Launches setup m t s after (under ++ below) next := by
        rw [shape]
        exact .of_installed (lt_of_mem_frames (first ▸ List.mem_cons_self)) fits launched
      rw [← shape] at started
      have keys : m.Keys key s := ours
      have own : (next.fate m.servers.length).session = some s := by
        rw [started.fate, Function.update_self]
      refine ⟨_ :: _ :: _ :: under, launches.replaced, fun f member => ?_,
        fun _ => shape ▸ (Apart.spawned keys launched).updateTask ..⟩
      simp only [List.mem_cons] at member
      rcases member with rfl | rfl | rfl | kept
      · exact keys.mono moved sound
      · exact keys.mono moved sound
      · exact ⟨keys.mono moved sound, own⟩
      · exact lower f kept
    · rw [outside] at own; cases own
  · refine ⟨above, kept_stack sound occupied (fun k member => ?_) stack moved own, still,
      fun step => absurd step own⟩
    exact (about _ member).ne_forward k rfl

-- A request for a key, whatever runs besides: its own steps leave the rest alone.
theorem apart_of_request (about : ∀ f ∈ above, About m key f) (stack : m.frames t = above ++ below)
    (sound : Sound m) (named : Named m) : ∀ step ∈ errand t below (m.steps setup events),
      step.event.task? = some t → Apart step.before step.after key := by
  induction events generalizing m above with
  | nil => intro step member; cases member
  | cons event rest ih =>
    intro step member own
    unfold steps at member
    split at member
    · rename_i next moved
      by_cases none : above = []
      · subst above
        simp [errand, stack] at member
      · rw [errand_cons none stack] at member
        obtain ⟨left, replaced, about, apart⟩ := about_advance about none stack sound named moved
        rcases List.mem_cons.1 member with rfl | later
        · exact apart own
        · exact ih about replaced (sound.advance moved) (named.advance sound moved) step later own
    · cases member

end LanguageRelay.Machine
