import LanguageRelay.Keyed
namespace LanguageRelay.Keyed
variable {α : Type} {map other : Keyed α} {key : String} {value : α}

theorem find?_cons_self (rest : Keyed α) : find? key ((key, value) :: rest) = some value := if_pos rfl

theorem find?_cons_of_ne {k : String} (differ : k ≠ key) (rest : Keyed α) :
    find? key ((k, value) :: rest) = find? key rest := if_neg differ

theorem mem_of_find? (found : find? key map = some value) : (key, value) ∈ map := by
  induction map with
  | nil => cases found
  | cons head rest ih =>
    obtain ⟨k, v⟩ := head
    rw [find?] at found
    split at found
    case isTrue same =>
      cases found
      subst same
      exact List.mem_cons_self
    case isFalse => exact List.mem_cons_of_mem _ (ih found)

theorem find?_eq_none_iff : map.find? key = none ↔ key ∉ map.keys := by
  induction map with
  | nil => simp [find?, keys]
  | cons e rest ih =>
    unfold find?
    by_cases here : e.1 = key
    · simp [keys, here]
    · rw [if_neg here, ih]
      simp [keys, Ne.symm here]

theorem find?_foldl_insert (g : String → α) (keys : List String) (map : Keyed α)
    (key : String) : (keys.foldl (fun found key => found.insert key (g key)) map).find? key =
      if key ∈ keys then some (g key) else map.find? key := by
  induction keys generalizing map with
  | nil => simp
  | cons first rest ih =>
    rw [List.foldl_cons, ih, find?_insert]
    by_cases later : key ∈ rest
    · simp [later]
    · by_cases here : first = key
      · simp [here]
      · simp [later, here, Ne.symm here]

theorem mem_insert {e : String × α} (member : e ∈ insert key value map) :
    e = (key, value) ∨ e ∈ map := by
  induction map with
  | nil => exact .inl (List.mem_singleton.1 member)
  | cons head rest ih =>
    obtain ⟨k, v⟩ := head
    rw [insert] at member
    split at member
    · exact List.mem_cons.1 member
    · split at member
      · exact (List.mem_cons.1 member).imp_right (List.mem_cons_of_mem _)
      · rcases List.mem_cons.1 member with rfl | later
        · exact .inr List.mem_cons_self
        · exact (ih later).imp_right (List.mem_cons_of_mem _)

def Ascends (map : Keyed α) : Prop := map.Pairwise fun earlier later => earlier.1 < later.1

instance (map : Keyed α) : Decidable map.Ascends :=
  inferInstanceAs (Decidable (List.Pairwise _ map))

theorem lt_of_not_lt {first second : String} (notBefore : ¬ first < second) (differ : first ≠ second) :
    second < first := by
  refine String.not_le.1 fun before => differ ?_
  exact String.le_antisymm before (String.not_lt.1 notBefore)

theorem ascends_insert (ascends : map.Ascends) (key : String) (value : α) :
    (insert key value map).Ascends := by
  induction map with
  | nil => exact List.pairwise_singleton _ _
  | cons head rest ih =>
    obtain ⟨k, v⟩ := head
    obtain ⟨first, ordered⟩ := List.pairwise_cons.1 ascends
    rw [insert]
    split
    case isTrue before =>
      refine List.pairwise_cons.2 ⟨fun e member => ?_, ascends⟩
      rcases List.mem_cons.1 member with rfl | later
      · exact before
      · exact String.lt_trans before (first e later)
    case isFalse notBefore =>
      split
      case isTrue same =>
        subst same
        exact List.pairwise_cons.2 ⟨first, ordered⟩
      case isFalse differ =>
        refine List.pairwise_cons.2 ⟨fun e member => ?_, ih ordered⟩
        rcases mem_insert member with rfl | old
        · exact lt_of_not_lt notBefore differ
        · exact first e old

theorem insert_greatest {key : String} {value : α} (greatest : ∀ e ∈ map, e.1 < key) :
    insert key value map = map ++ [(key, value)] := by
  induction map with
  | nil => rfl
  | cons e rest ih =>
    obtain ⟨k, v⟩ := e
    have less : k < key := greatest (k, v) List.mem_cons_self
    have other : key ≠ k := fun same => String.lt_irrefl k (same ▸ less)
    rw [insert, if_neg (String.lt_asymm less), if_neg other,
      ih fun e member => greatest e (List.mem_cons_of_mem _ member)]
    rfl

theorem Ascends.foldl_insert {done rest : Keyed α} (ascends : Ascends (done ++ rest)) :
    rest.foldl (fun map e => insert e.1 e.2 map) done = done ++ rest := by
  induction rest generalizing done with
  | nil => simp
  | cons e rest ih =>
    have greatest : ∀ other ∈ done, other.1 < e.1 := fun other member =>
      (List.pairwise_append.1 ascends).2.2 other member e List.mem_cons_self
    rw [List.foldl_cons, insert_greatest greatest, ih (by simpa using ascends)]
    simp

theorem Ascends.ofList (ascends : map.Ascends) : ofList map = map := by
  have whole : Ascends ([] ++ map) := ascends
  exact whole.foldl_insert

theorem Ascends.find?_rest {rest : Keyed α} (ascends : Ascends ((key, value) :: rest)) :
    find? key rest = none := by
  cases found : find? key rest with
  | none => rfl
  | some again =>
    have less : key < key := (List.pairwise_cons.1 ascends).1 _ (mem_of_find? found)
    exact absurd less (String.lt_irrefl key)

theorem Ascends.ext (ascends : map.Ascends) (ascends' : other.Ascends)
    (same : ∀ key, find? key map = find? key other) : map = other := by
  induction map generalizing other with
  | nil =>
    cases other with
    | nil => rfl
    | cons head rest => exact nomatch (same head.1).trans (find?_cons_self rest)
  | cons head rest ih =>
    obtain ⟨k, v⟩ := head
    cases other with
    | nil => exact nomatch (same k).symm.trans (find?_cons_self rest)
    | cons head' rest' =>
      obtain ⟨k', v'⟩ := head'
      -- Were the first keys different, each map would find the other's first key further on.
      have keys : k = k' := by
        refine Classical.byContradiction fun differ => ?_
        have here := (same k).symm.trans (find?_cons_self rest)
        have there := (same k').trans (find?_cons_self rest')
        rw [find?_cons_of_ne (Ne.symm differ)] at here
        rw [find?_cons_of_ne differ] at there
        have less : k' < k := (List.pairwise_cons.1 ascends').1 _ (mem_of_find? here)
        exact String.lt_asymm less ((List.pairwise_cons.1 ascends).1 _ (mem_of_find? there))
      subst keys
      have values := (find?_cons_self rest).symm.trans ((same k).trans (find?_cons_self rest'))
      cases values
      refine congrArg ((k, v) :: ·) (ih (List.pairwise_cons.1 ascends).2
        (List.pairwise_cons.1 ascends').2 fun key => ?_)
      by_cases first : k = key
      · subst first
        rw [ascends.find?_rest, ascends'.find?_rest]
      · have further := same key
        rwa [find?_cons_of_ne first, find?_cons_of_ne first] at further

theorem foldl_insert (rest : List (String × α)) (ascends : map.Ascends) :
    (rest.foldl (fun map e => insert e.1 e.2 map) map).Ascends ∧
      ∀ e ∈ rest.foldl (fun map e => insert e.1 e.2 map) map, e ∈ map ∨ e ∈ rest := by
  induction rest generalizing map with
  | nil => exact ⟨ascends, fun e member => .inl member⟩
  | cons head rest ih =>
    obtain ⟨ordered, origin⟩ := ih (ascends_insert ascends head.1 head.2)
    refine ⟨ordered, fun e member => ?_⟩
    rcases origin e member with inserted | later
    · exact (mem_insert inserted).elim (fun same => .inr (same ▸ List.mem_cons_self)) .inl
    · exact .inr (List.mem_cons_of_mem _ later)

theorem ascends_ofList (bindings : List (String × α)) : (ofList bindings).Ascends :=
  (foldl_insert bindings List.Pairwise.nil).1

theorem mem_of_mem_ofList {bindings : List (String × α)} {e : String × α}
    (member : e ∈ ofList bindings) : e ∈ bindings :=
  ((foldl_insert bindings List.Pairwise.nil).2 e member).resolve_left List.not_mem_nil

theorem ascends_override (ascends : map.Ascends) (later : Keyed α) : (override map later).Ascends :=
  (foldl_insert later ascends).1

theorem Ascends.nodup_keys (ascends : map.Ascends) : map.keys.Nodup := by
  refine List.pairwise_map.2 (ascends.imp fun {earlier later} less same => ?_)
  exact String.lt_irrefl later.1 (same ▸ less)

theorem find?_override_of_nodup {later : Keyed α} (single : later.keys.Nodup) (map : Keyed α)
    (key : String) : (override map later).find? key = (later.find? key).or (map.find? key) := by
  induction later generalizing map with
  | nil => rfl
  | cons head rest ih =>
    obtain ⟨k, v⟩ := head
    obtain ⟨fresh, single⟩ := List.nodup_cons.1 single
    have step : override map ((k, v) :: rest) = override (insert k v map) rest := rfl
    rw [step, ih single, find?_insert]
    by_cases here : k = key
    · subst here
      rw [find?_eq_none_iff.2 fresh, if_pos rfl, find?_cons_self, Option.none_or, Option.some_or]
    · rw [if_neg here, find?_cons_of_ne here]

theorem find?_override {later : Keyed α} (ascends : later.Ascends) (map : Keyed α) (key : String) :
    (override map later).find? key = (later.find? key).or (map.find? key) :=
  find?_override_of_nodup ascends.nodup_keys map key

theorem find?_ofList_of_nodup {bindings : List (String × α)} (single : (keys bindings).Nodup)
    (key : String) : (ofList bindings).find? key = find? key bindings :=
  (find?_override_of_nodup single [] key).trans Option.or_none

theorem override_assoc {later latest : Keyed α} (ascends : map.Ascends) (ascends' : later.Ascends)
    (ascends'' : latest.Ascends) :
    override (override map later) latest = override map (override later latest) := by
  refine (ascends_override (ascends_override ascends later) latest).ext (ascends_override ascends _)
    fun key => ?_
  rw [find?_override ascends'', find?_override ascends', find?_override (ascends_override ascends' latest),
    find?_override ascends'', Option.or_assoc]

theorem find?_of_mem (ascends : map.Ascends) (member : (key, value) ∈ map) :
    find? key map = some value := by
  induction map with
  | nil => cases member
  | cons head rest ih =>
    obtain ⟨k, v⟩ := head
    obtain ⟨first, ordered⟩ := List.pairwise_cons.1 ascends
    rcases List.mem_cons.1 member with here | later
    · cases here
      exact find?_cons_self rest
    · have other : k ≠ key := fun same => String.lt_irrefl k (same ▸ first _ later)
      rw [find?_cons_of_ne other, ih ordered later]

theorem find?_eq_some_iff (ascends : map.Ascends) : find? key map = some value ↔ (key, value) ∈ map :=
  ⟨mem_of_find?, find?_of_mem ascends⟩

theorem Ascends.head?_eq_some_iff (ascends : map.Ascends) {e : String × α} :
    map.head? = some e ↔ e ∈ map ∧ ∀ other ∈ map, e.1 ≤ other.1 := by
  cases map with
  | nil => simp
  | cons head rest =>
    have least : ∀ other ∈ rest, head.1 < other.1 := (List.pairwise_cons.1 ascends).1
    rw [List.head?_cons, Option.some.injEq]
    constructor
    · rintro rfl
      refine ⟨List.mem_cons_self, fun other member => String.not_lt.1 fun before => ?_⟩
      rcases List.mem_cons.1 member with rfl | later
      · exact String.lt_irrefl _ before
      · exact String.lt_asymm before (least other later)
    · rintro ⟨member, first⟩
      rcases List.mem_cons.1 member with rfl | later
      · rfl
      · exact absurd (least e later) (String.not_lt.2 (first head List.mem_cons_self))

end LanguageRelay.Keyed
