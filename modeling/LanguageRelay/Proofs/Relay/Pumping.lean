import LanguageRelay.Proofs.Relay.Changes
namespace LanguageRelay

namespace Activity

def pumps (p : ServerId) : Activity → Bool
  | .pump _ q => q == p
  | _ => false

def isFanning : Activity → Bool
  | .pump _ _ | .fanOut _ _ | .broadcast _ (.message _) | .deliver _ _ _ (.message _) => true
  | _ => false

end Activity

namespace Machine

-- The frames of a task that reads the output of `p` for the session `s`.
inductive Pumping (s : SessionId) (p : ServerId) : List Activity → Prop where
  | atRest : Pumping s p [.pump s p]
  | fanning {message} : Pumping s p [.fanOut s message, .pump s p]
  | broadcasting {message} : Pumping s p [.broadcast s (.message message), .checkUsed s, .pump s p]
  | delivering {pending gone message} : pending.Nodup →
      Pumping s p [.deliver s pending gone (.message message), .checkUsed s, .pump s p]
  | evicting {d pending gone message} : pending.Nodup →
      Pumping s p [.evict d, .deliver s pending gone (.message message), .checkUsed s, .pump s p]
  | removing {gone} : Pumping s p [.remove s gone, .checkUsed s, .pump s p]
  | checking : Pumping s p [.checkUsed s, .pump s p]

-- At every moment of a run one task reads the output of a server, and only such tasks fan messages out.
structure Fans (m : Machine) : Prop where
  pumping : ∀ t, (∃ f ∈ m.frames t, f.isFanning) → ∃ s p, Pumping s p (m.frames t)
  known : ∀ t s p, .pump s p ∈ m.frames t → p < m.servers.length
  single : ∀ t u s r p, .pump s p ∈ m.frames t → .pump r p ∈ m.frames u → t = u
  nodup : ∀ s, (m.custody s).subscribers.Nodup

variable {m made next : Machine} {setup : Setup} {event : Event} {earlier events : List Event}
  {t u : TaskId} {s r : SessionId} {p q : ServerId} {c : ConnectionId} {a f : Activity}
  {frames rest new : List Activity} {key : String}

theorem Pumping.fanning_mem (pumping : Pumping s p frames) : .pump s p ∈ frames := by
  cases pumping <;> simp

theorem isFanning_of_stems (stems : Stems m a f) (fanning : f.isFanning) : a.isFanning := by
  cases f with
  | pump s p => rw [stems]; rfl
  | fanOut s message =>
    obtain ⟨p, rfl⟩ := stems; rfl
  | broadcast s event =>
    cases event with
    | message message => obtain ⟨original, rfl⟩ := stems; rfl
    | status event => cases fanning
    | error key code text => cases fanning
  | deliver s pending gone event =>
    cases event with
    | message message =>
      rcases stems with rfl | ⟨_, _, rfl⟩
      · rfl
      · rfl
    | status event => cases fanning
    | error key code text => cases fanning
  | _ => cases fanning

theorem not_isFanning_of_isEntry (entry : f.isEntry) : f.isFanning = false := by
  cases f with
  | pump | fanOut | broadcast | deliver => cases entry
  | _ => rfl

theorem Move.nodup {held : SessionId → Custody} (move : Move m t a held new)
    (nodup : (m.custody s).subscribers.Nodup) : (held s).subscribers.Nodup := by
  have still : (held s).subscribers = (m.custody s).subscribers → (held s).subscribers.Nodup := by
    intro same; rw [same]; exact nodup
  cases move with
  | plain _ use _ =>
    cases use with
    | same same => exact still (by rw [same])
    | attached absent changed =>
      rcases update_cases changed s with ⟨rfl, here⟩ | ⟨_, same⟩
      · rw [here]
        refine List.nodup_append.2 ⟨nodup, by simp, ?_⟩
        intro d member e last
        rw [List.mem_singleton.1 last]
        rintro rfl
        exact absent member
      · exact still (by rw [same])
    | renewed changed =>
      rcases update_cases changed s with ⟨rfl, here⟩ | ⟨_, same⟩
      · exact still (by rw [here])
      · exact still (by rw [same])
    | detached changed | removed changed =>
      rcases update_cases changed s with ⟨rfl, here⟩ | ⟨_, same⟩
      · rw [here]; exact nodup.filter _
      · exact still (by rw [same])
    | cleared changed =>
      rcases update_cases changed s with ⟨rfl, here⟩ | ⟨_, same⟩
      · rw [here]; exact List.nodup_nil
      · exact still (by rw [same])
  | finishing _ _ same | finished _ _ same | awaited _ same | refused _ same _ =>
    exact still (by rw [same])
  | vacated _ _ _ changed | vacant _ _ changed | outlived _ _ _ changed | locked _ _ changed
  | stopped _ _ changed | taken _ changed | released _ _ changed | begun _ changed
  | closed changed =>
    rcases update_cases changed s with ⟨rfl, here⟩ | ⟨_, same⟩
    · exact still (by rw [here])
    · exact still (by rw [same])

theorem Pumping.turned (pumping : Pumping s p (a :: rest)) (taken : Takes setup m t a made new)
    (nodup : (m.custody s).subscribers.Nodup) : Pumping s p (new ++ rest) ∨ new ++ rest = [] := by
  cases taken with
  | fails | breaks | attends => cases pumping
  | performs performed =>
    cases pumping with
    | atRest =>
      simp only [perform, Machine.pump] at performed
      split at performed
      · cases performed
      · cases performed; exact .inl .fanning
      · cases performed; exact .inr rfl
    | fanning =>
      simp only [perform, Machine.fanOut] at performed
      split at performed
      · cases performed; exact .inl .atRest
      · cases performed; exact .inl .broadcasting
    | broadcasting => cases performed; exact .inl (.delivering nodup)
    | @delivering pending gone message distinct =>
      simp only [perform, Machine.deliver] at performed
      split at performed
      · cases performed
        by_cases none : gone = []
        · rw [if_pos none]; exact .inl .checking
        · rw [if_neg none]; exact .inl .removing
      · have fewer := (List.nodup_cons.1 distinct).2
        split at performed
        · cases performed; exact .inl (.delivering fewer)
        · cases performed; exact .inl (.evicting fewer)
        · cases performed; exact .inl (.delivering fewer)
    | evicting distinct => cases performed; exact .inl (.delivering distinct)
    | removing => cases performed; exact .inl .checking
    | checking => cases performed; exact .inl .atRest

theorem pump_cases (happens : Happens setup m event next) (member : .pump s p ∈ next.frames u) :
    .pump s p ∈ m.frames u ∨ u = m.tasks.length ∧ p = m.servers.length ∧
      next.servers.length = m.servers.length + 1 := by
  have elsewhere : Elsewhere m next u →
      (∀ u, m.tasks.length ≤ u → ∀ f ∈ next.frames u, f.isEntry) → .pump s p ∈ m.frames u := by
    intro elsewhere begun
    rcases elsewhere with kept | ⟨beyond, _⟩ | ⟨_, broken⟩
    · rw [kept] at member; exact member
    · have entry := begun u beyond _ member
      cases entry
    · rw [broken] at member; cases member
  cases happens with
  | @turned t a rest _ new _ turned _ leaves _ =>
    left
    by_cases here : u = t
    · subst u
      rw [turned.replaced] at member
      rw [turned.stack]
      rcases List.mem_append.1 member with added | below
      · have stems := leaves.stems _ added
        exact stems ▸ List.mem_cons_self
      · exact List.mem_cons_of_mem _ below
    · exact elsewhere (turned.elsewhere u here) leaves.foot.begun
  | @started t r after rest _ started launches =>
    by_cases here : u = t
    · subst u
      rw [launches.replaced] at member
      rw [started.stack]
      left
      rcases member with _ | ⟨_, _ | ⟨_, _ | ⟨_, below⟩⟩⟩
      exact List.mem_cons_of_mem _ below
    · by_cases pump : u = m.tasks.length
      · subst u
        rw [started.pump, List.mem_singleton] at member
        cases member
        exact .inr ⟨rfl, rfl, launches.length_servers⟩
      · left
        by_cases awaits : u = m.tasks.length + 1
        · subst u
          rw [started.awaitExit, List.mem_singleton] at member
          cases member
        · rw [started.elsewhere u here pump awaits] at member
          exact member
  | ambient _ ambient outside => exact .inl (elsewhere (ambient.elsewhere u) outside.begun)

theorem Pumping.elsewhere (fans : Fans m) (elsewhere : Elsewhere m next u)
    (begun : ∀ u, m.tasks.length ≤ u → ∀ f ∈ next.frames u, f.isEntry)
    (some : ∃ f ∈ next.frames u, f.isFanning) : ∃ s p, Pumping s p (next.frames u) := by
  obtain ⟨f, member, fanning⟩ := some
  rcases elsewhere with kept | ⟨beyond, _⟩ | ⟨_, broken⟩
  · rw [kept] at member ⊢
    exact fans.pumping u ⟨f, member, fanning⟩
  · rw [not_isFanning_of_isEntry (begun u beyond f member)] at fanning
    cases fanning
  · rw [broken] at member; cases member

theorem Pumping.of_turned (fans : Fans m) (turned : Turned m t a rest new next)
    (taken : Takes setup m t a made new) (leaves : Leaves m a next new)
    (some : ∃ f ∈ next.frames t, f.isFanning) : ∃ s p, Pumping s p (next.frames t) := by
  obtain ⟨f, member, fanning⟩ := some
  rw [turned.replaced] at member ⊢
  by_cases before : ∃ f ∈ a :: rest, f.isFanning
  · rw [← turned.stack] at before
    obtain ⟨s, p, pumping⟩ := fans.pumping t before
    rw [turned.stack] at pumping
    rcases pumping.turned taken (fans.nodup s) with still | none
    · exact ⟨s, p, still⟩
    · rw [none] at member; cases member
  · rcases List.mem_append.1 member with added | below
    · have top := isFanning_of_stems (leaves.stems f added) fanning
      exact absurd ⟨a, List.mem_cons_self, top⟩ before
    · exact absurd ⟨f, List.mem_cons_of_mem _ below, fanning⟩ before

theorem Pumping.of_started {after : AfterStart} (fans : Fans m)
    (started : Started m t s after rest next) (launches : Launches setup m t s after rest next)
    (some : ∃ f ∈ next.frames u, f.isFanning) : ∃ s p, Pumping s p (next.frames u) := by
  obtain ⟨f, member, fanning⟩ := some
  by_cases here : u = t
  · subst u
    rw [launches.replaced] at member
    -- Nothing fans out below a frame that starts a server.
    have none : ∀ f ∈ .spawn s after :: rest, f.isFanning = false := by
      intro f below
      apply Bool.eq_false_iff.2
      intro fanning
      rw [← started.stack] at below
      obtain ⟨r, p, pumping⟩ := fans.pumping t ⟨f, below, fanning⟩
      rw [started.stack] at pumping
      cases pumping
    rcases member with _ | ⟨_, _ | ⟨_, _ | ⟨_, below⟩⟩⟩
    · cases fanning
    · cases fanning
    · cases fanning
    · rw [none f (List.mem_cons_of_mem _ below)] at fanning
      cases fanning
  · by_cases pump : u = m.tasks.length
    · subst u
      rw [started.pump]; exact ⟨s, _, .atRest⟩
    · by_cases awaits : u = m.tasks.length + 1
      · subst u
        rw [started.awaitExit, List.mem_singleton] at member
        subst f; cases fanning
      · rw [started.elsewhere u here pump awaits] at member ⊢
        exact fans.pumping u ⟨f, member, fanning⟩

theorem Fans.advance (fans : Fans m) (sound : Sound m) (moved : m.advance setup event = some next) :
    Fans next := by
  have happens := sound.happens moved
  have more := happens.length_servers
  refine ⟨fun u some => ?_, fun u s p member => ?_, fun u v s r p first second => ?_, fun s => ?_⟩
  · cases happens with
    | @turned t _ _ _ _ _ turned taken leaves _ =>
      by_cases here : u = t
      · subst u
        exact Pumping.of_turned fans turned taken leaves some
      · exact Pumping.elsewhere fans (turned.elsewhere u here) leaves.foot.begun some
    | started _ started launches => exact Pumping.of_started fans started launches some
    | ambient _ ambient outside =>
      exact Pumping.elsewhere fans (ambient.elsewhere u) outside.begun some
  · rcases pump_cases happens member with before | ⟨_, rfl, grown⟩
    · exact Nat.lt_of_lt_of_le (fans.known u s p before) more
    · rw [grown]; exact Nat.lt_succ_self _
  · rcases pump_cases happens first with before | ⟨rfl, rfl, _⟩
    · rcases pump_cases happens second with also | ⟨_, rfl, _⟩
      · exact fans.single u v s r p before also
      · exact absurd (fans.known u s _ before) (Nat.lt_irrefl _)
    · rcases pump_cases happens second with also | ⟨rfl, _, _⟩
      · exact absurd (fans.known v r _ also) (Nat.lt_irrefl _)
      · rfl
  · cases happens with
    | turned _ turned _ _ _ => exact turned.move.nodup (fans.nodup s)
    | started _ started _ =>
      rcases update_cases started.custody s with ⟨rfl, here⟩ | ⟨_, same⟩
      · rw [here]; exact fans.nodup s
      · rw [same]; exact fans.nodup s
    | ambient _ ambient _ => rw [ambient.custody]; exact fans.nodup s

theorem fans_initial : Fans initial := by
  have none : ∀ {u : TaskId} {f : Activity}, f ∉ initial.frames u := by
    intro u f member; rw [frames_initial] at member; cases member
  refine ⟨fun u some => ?_, fun u s p member => absurd member none,
    fun u v s r p member => absurd member none, fun s => List.nodup_nil⟩
  obtain ⟨f, member, _⟩ := some
  exact absurd member none

theorem Fans.runs (ran : initial.runs setup events = some m) : Fans m :=
  sound_initial.induction (motive := fun _ m => Fans m) ran fans_initial
    fun _ _ _ _ sound moved fans => fans.advance sound moved

-- The task `t` reads the output of `p` for a session with the given key, or it has come to its end.
structure Reader (m : Machine) (t : TaskId) (s : SessionId) (p : ServerId) (key : String) : Prop where
  state : Pumping s p (m.frames t) ∧ (m.session s).key = key ∨ m.frames t = []
  alone : ∀ u r, .pump r p ∈ m.frames u → u = t
  task : t < m.tasks.length
  server : p < m.servers.length

theorem Reader.of_atRest (fans : Fans m) (atRest : m.frames t = [.pump s p]) :
    Reader m t s p (m.session s).key := by
  have member : .pump s p ∈ m.frames t := by
    rw [atRest]; exact List.mem_cons_self
  refine ⟨.inl ⟨?_, rfl⟩, fun u r other => ?_, lt_of_mem_frames member, fans.known t s p member⟩
  · rw [atRest]; exact .atRest
  · exact fans.single u t r s p other member

-- Nothing but a step of its own changes the task.
theorem Reader.elsewhere (reader : Reader m t s p key) (elsewhere : Elsewhere m next t) :
    next.frames t = m.frames t := by
  rcases elsewhere with kept | ⟨beyond, _⟩ | ⟨forwards, broken⟩
  · exact kept
  · exact absurd reader.task (Nat.not_lt_of_le beyond)
  · rcases reader.state with ⟨pumping, _⟩ | none
    · obtain ⟨k, same⟩ := forwards _ pumping.fanning_mem
      cases same
    · rw [none, broken]

theorem Reader.kept (reader : Reader m t s p key) (happens : Happens setup m event next)
    (other : event.task? ≠ some t) : next.frames t = m.frames t := by
  cases happens with
  | turned step turned _ _ _ =>
    apply reader.elsewhere
    apply turned.elsewhere
    rintro rfl
    exact other step
  | started launch started _ =>
    subst launch
    apply started.elsewhere
    · rintro rfl
      exact other rfl
    · exact Nat.ne_of_lt reader.task
    · exact Nat.ne_of_lt (Nat.lt_succ_of_lt reader.task)
  | ambient _ ambient _ => exact reader.elsewhere (ambient.elsewhere t)

theorem Reader.pumping (reader : Reader m t s p key) (stack : m.frames t = a :: rest) :
    Pumping s p (a :: rest) ∧ (m.session s).key = key := by
  rcases reader.state with pumping | none
  · rw [stack] at pumping; exact pumping
  · rw [none] at stack; cases stack

theorem Reader.advance (reader : Reader m t s p key) (fans : Fans m) (sound : Sound m)
    (moved : m.advance setup event = some next) : Reader next t s p key := by
  have happens := sound.happens moved
  have named : Pumping s p (m.frames t) → (m.session s).key = key → (next.session s).key = key := by
    intro pumping named
    have there : s < m.sessions.length := sound.present.frames t _ pumping.fanning_mem
    exact (happens.key there).trans named
  refine ⟨?_, fun u r member => ?_, ?_, ?_⟩
  · by_cases own : event.task? = some t
    · cases happens with
      | @turned u a rest made new step turned taken _ _ =>
        rw [step] at own
        cases own
        obtain ⟨pumping, before⟩ := reader.pumping turned.stack
        rw [turned.replaced]
        apply Or.imp_left _ (pumping.turned taken (fans.nodup s))
        intro still
        exact ⟨still, named (turned.stack ▸ pumping) before⟩
      | started launch started _ =>
        subst launch
        cases own
        cases (reader.pumping started.stack).1
      | ambient outside _ _ => rw [outside] at own; cases own
    · rw [reader.kept happens own]
      apply Or.imp_left _ reader.state
      rintro ⟨pumping, before⟩
      exact ⟨pumping, named pumping before⟩
  · rcases pump_cases happens member with before | ⟨_, rfl, _⟩
    · exact reader.alone u r before
    · exact absurd reader.server (Nat.lt_irrefl _)
  · exact Nat.lt_of_lt_of_le reader.task (sound.tasks_le moved)
  · exact Nat.lt_of_lt_of_le reader.server happens.length_servers

end Machine
end LanguageRelay
