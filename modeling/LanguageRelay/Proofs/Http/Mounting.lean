import Mathlib.Data.List.DropRight
import LanguageRelay.Http.Routes
import LanguageRelay.Proofs.Text.Split
import LanguageRelay.Settings.BaseUrl
namespace LanguageRelay
open Http Settings

namespace Settings
variable {raw base : String} {rest : List Char}

-- A base path other than the root that has been normalized.
structure IsTrimmed (base : String) (rest : List Char) : Prop where
  begins : base.toList = '/' :: rest
  kept : withoutTrailingSlashes base.toList = base.toList
  plain : base.toList.any isWildcard = false

theorem normalizeBaseUrl_ok (accepted : normalizeBaseUrl raw = .ok base) :
    base = "/" ∨ ∃ rest, IsTrimmed base rest := by
  unfold normalizeBaseUrl at accepted
  split at accepted
  case isTrue => cases accepted
  case isFalse absolute =>
    have idempotent : withoutTrailingSlashes (withoutTrailingSlashes raw.toList) =
        withoutTrailingSlashes raw.toList := List.rdropWhile_idempotent _ _
    have begins : withoutTrailingSlashes raw.toList <+: raw.toList := List.rdropWhile_prefix _ _
    generalize withoutTrailingSlashes raw.toList = trimmed at accepted idempotent begins
    cases trimmed with
    | nil => cases accepted; exact .inl rfl
    | cons c rest =>
      dsimp only at accepted
      split at accepted
      case isTrue => cases accepted
      case isFalse plain =>
        cases accepted
        obtain ⟨tail, whole⟩ := begins
        obtain rfl : c = '/' := by simpa [← whole] using absolute
        exact .inr ⟨rest, by simp, by simpa using idempotent, by simpa using plain⟩

theorem IsTrimmed.getLast?_ne (trimmed : IsTrimmed base rest) : base.toList.getLast? ≠ some '/' := by
  intro ends
  have present : base.toList ≠ [] := by simp [trimmed.begins]
  refine List.rdropWhile_eq_self_iff.1 trimmed.kept present ?_
  rw [List.getLast?_eq_some_getLast present] at ends
  simpa using ends

theorem IsTrimmed.normalizeBaseUrl (trimmed : IsTrimmed base rest) : normalizeBaseUrl base = .ok base := by
  have absolute : base.toList.head? = some '/' := by rw [trimmed.begins]; rfl
  rw [Settings.normalizeBaseUrl, if_neg (not_not_intro absolute), trimmed.kept]
  have plain := trimmed.plain
  rw [trimmed.begins] at plain ⊢
  dsimp only
  rw [if_neg (by simp [plain]), ← trimmed.begins, String.ofList_toList]

end Settings

namespace Http.Routes
variable {raw base : String} {rest : List Char} {routes : Routes} {endpoint : Endpoint} {target : String}

-- The path of an endpoint below the base.
inductive StandsAt : Endpoint → List Char → Prop where
  | status : StandsAt .status "/lsp/status".toList
  | installed : StandsAt .installed "/lsp/installed".toList
  | socket {key : List Char} : key ≠ [] → '/' ∉ key →
    StandsAt (.socket (String.ofList key)) ("/lsp/ws/".toList ++ key)

theorem endpointBelow?_eq_some_iff {path : List Char} :
    endpointBelow? path = some endpoint ↔ StandsAt endpoint path := by
  constructor
  · intro found
    unfold endpointBelow? at found
    split at found
    · rename_i here
      cases found
      exact here ▸ .status
    · split at found
      · rename_i here
        cases found
        exact here ▸ .installed
      · split at found
        · rename_i below
          dsimp only at found
          split at found
          · cases found
          · rename_i proper
            cases found
            rw [not_or] at proper
            have whole := List.prefix_iff_eq_append.1 (List.isPrefixOf_iff_prefix.1 below)
            have stands := StandsAt.socket proper.1 proper.2
            rwa [show "/lsp/ws/".toList = socketPath from rfl, whole] at stands
        · cases found
  · rintro (_ | _ | ⟨present, single⟩)
    · rfl
    · rfl
    · rename_i key
      have other : ∀ {path : List Char}, path.take 8 ≠ socketPath → socketPath ++ key ≠ path := by
        rintro path differ rfl
        exact differ (List.take_left' rfl)
      show endpointBelow? (socketPath ++ key) = _
      rw [endpointBelow?, if_neg (other (by decide)), if_neg (other (by decide)),
        if_pos (List.isPrefixOf_iff_prefix.2 (List.prefix_append _ _)), List.drop_left]
      exact if_neg (not_or.2 ⟨present, single⟩)

theorem endpoint?_eq_some_iff : routes.endpoint? target = some endpoint ↔
    ∃ below, StandsAt endpoint below ∧ pathOf target = routes.base ++ below := by
  unfold endpoint?
  dsimp only
  split
  case isTrue begins =>
    obtain ⟨below, whole⟩ := List.isPrefixOf_iff_prefix.1 begins
    rw [← whole, List.drop_left, endpointBelow?_eq_some_iff]
    simp
  case isFalse foreign =>
    constructor
    · intro found
      cases found
    · rintro ⟨below, -, whole⟩
      exact absurd (List.isPrefixOf_iff_prefix.2 ⟨below, whole.symm⟩) foreign

-- Normalizing has refused the other marks of a route pattern.
theorem isLiteral_iff {segment : List Char} (inside : segment <:+: base.toList)
    (plain : base.toList.any isWildcard = false) : isLiteral segment ↔ segment.head? ≠ some ':' := by
  have absent : ∀ c, isWildcard c → c ∉ segment := fun c wild member =>
    List.any_eq_false.1 plain c (inside.subset member) wild
  have star : segment.head? ≠ some '*' := fun first =>
    absent '*' (by decide) (List.mem_of_mem_head? first)
  simp [isLiteral, star, absent '\x7b' (by decide), absent '\x7d' (by decide)]

theorem all_isLiteral_iff (trimmed : IsTrimmed base rest) :
    (Text.splitOn '/' base.toList).all isLiteral ↔ ¬ ['/', ':'] <:+: base.toList := by
  have segments : Text.splitOn '/' base.toList = [] :: Text.splitOn '/' rest := by
    rw [trimmed.begins, Text.splitOn, if_pos rfl]
  have literal : ∀ segment ∈ Text.splitOn '/' rest,
      (isLiteral segment ↔ segment.head? ≠ some ':') := by
    intro segment member
    have among : segment ∈ Text.splitOn '/' base.toList := segments ▸ List.mem_cons_of_mem _ member
    exact isLiteral_iff (Text.isInfix_of_mem_splitOn among) trimmed.plain
  rw [← Text.exists_headed_part (by decide), segments, List.all_cons, List.tail_cons,
    show isLiteral [] = true from rfl, Bool.true_and, List.all_eq_true, not_exists]
  refine forall_congr' fun segment => ⟨?_, ?_⟩
  · rintro all ⟨member, colon⟩
    exact (literal segment member).1 (all member) colon
  · intro none member
    exact (literal segment member).2 fun colon => none ⟨member, colon⟩

theorem mount?_eq (trimmed : IsTrimmed base rest) :
    mount? base = if ['/', ':'] <:+: base.toList then none else some ⟨base.toList⟩ := by
  have whole : (base.toList.reverse.dropWhile (· == '/')).reverse = base.toList := trimmed.kept
  have literal := all_isLiteral_iff trimmed
  rw [mount?, whole]
  rw [trimmed.begins] at literal ⊢
  simp only [true_and, literal, ite_not]

-- A path ends before the first query or fragment mark, so that a base path with one begins no path. Nor does
-- one with a character that cannot stand in a target.
theorem exists_endpoint?_iff {allowed : Char → Prop} (plain : ∀ c ∈ "/lsp/status".toList, allowed c) :
    (∃ target endpoint, (∀ c ∈ target.toList, allowed c) ∧ routes.endpoint? target = some endpoint) ↔
      '?' ∉ routes.base ∧ '#' ∉ routes.base ∧ ∀ c ∈ routes.base, allowed c := by
  have unmarked : ∀ c, (c != '?' && c != '#') = true ↔ c ≠ '?' ∧ c ≠ '#' := by simp
  constructor
  · rintro ⟨target, endpoint, written, found⟩
    obtain ⟨below, -, whole⟩ := endpoint?_eq_some_iff.1 found
    have within : ∀ c ∈ routes.base, c ∈ pathOf target :=
      fun c member => whole ▸ List.mem_append_left below member
    have kept : ∀ c ∈ routes.base, c ≠ '?' ∧ c ≠ '#' := by
      intro c member
      have passed := List.mem_takeWhile_imp (within c member)
      exact (unmarked c).1 passed
    exact ⟨fun mark => (kept _ mark).1 rfl, fun mark => (kept _ mark).2 rfl,
      fun c member => written c ((List.takeWhile_prefix _).subset (within c member))⟩
  · rintro ⟨query, fragment, written⟩
    have ordinary : ∀ c ∈ "/lsp/status".toList, c ≠ '?' ∧ c ≠ '#' := by simp
    refine ⟨String.ofList (routes.base ++ "/lsp/status".toList), .status, fun c member => ?_,
      endpoint?_eq_some_iff.2 ⟨_, .status, ?_⟩⟩
    · rw [String.toList_ofList] at member
      exact (List.mem_append.1 member).elim (written c) (plain c)
    · rw [pathOf, String.toList_ofList, List.takeWhile_eq_self_iff]
      intro c member
      rw [unmarked]
      rcases List.mem_append.1 member with inside | inside
      · exact ⟨fun same => query (same ▸ inside), fun same => fragment (same ▸ inside)⟩
      · exact ordinary c inside

-- An accepted base path is mounted unless a segment of it begins with a colon. Then the endpoints stand below
-- it, and some request reaches one if no mark ends the path before, whichever characters a target may hold.
theorem accepted_base_mounts (accepted : normalizeBaseUrl raw = .ok base) :
    (base = "/" ∨ base.toList.head? = some '/' ∧ base.toList.getLast? ≠ some '/') ∧
    normalizeBaseUrl base = .ok base ∧
    (mount? base = none ↔ ['/', ':'] <:+: base.toList) ∧
    ∀ routes, mount? base = some routes →
      (∀ target endpoint, routes.endpoint? target = some endpoint ↔
        ∃ below, StandsAt endpoint below ∧
          pathOf target = (if base = "/" then [] else base.toList) ++ below) ∧
      ∀ allowed : Char → Prop, (∀ c ∈ "/lsp/status".toList, allowed c) →
        ((∃ target endpoint, (∀ c ∈ target.toList, allowed c) ∧
            routes.endpoint? target = some endpoint) ↔
          '?' ∉ base.toList ∧ '#' ∉ base.toList ∧ ∀ c ∈ base.toList, allowed c) := by
  rcases normalizeBaseUrl_ok accepted with rfl | ⟨rest, trimmed⟩
  · have mounts : mount? "/" = some ⟨[]⟩ := rfl
    refine ⟨.inl rfl, rfl, by decide +kernel, ?_⟩
    rintro routes mounted
    obtain rfl := Option.some.inj (mounts.symm.trans mounted)
    refine ⟨fun _ _ => endpoint?_eq_some_iff, fun allowed plain => ?_⟩
    rw [exists_endpoint?_iff plain]
    have slash : allowed '/' := plain '/' (by decide)
    simp [slash]
  · have other : base ≠ "/" := by
      rintro rfl
      exact trimmed.getLast?_ne rfl
    have absolute : base.toList.head? = some '/' := by rw [trimmed.begins]; rfl
    rw [mount?_eq trimmed, if_neg other]
    refine ⟨.inr ⟨absolute, trimmed.getLast?_ne⟩, trimmed.normalizeBaseUrl, by simp, ?_⟩
    intro routes mounted
    split at mounted
    · cases mounted
    · cases mounted
      exact ⟨fun _ _ => endpoint?_eq_some_iff, fun _ plain => exists_endpoint?_iff plain⟩

theorem accepted_base_mounts_nested : normalizeBaseUrl "/a//b//" = .ok "/a//b" ∧
    mount? "/a//b" = some ⟨"/a//b".toList⟩ ∧
    endpoint? ⟨"/a//b".toList⟩ "/a//b/lsp/ws/py?from=a" = some (.socket "py") := by
  have accepted : normalizeBaseUrl "/a//b//" = .ok "/a//b" := rfl
  have mounted : mount? "/a//b" = some ⟨"/a//b".toList⟩ := by decide +kernel
  have single : '/' ∉ "py".toList := by decide
  obtain ⟨-, -, -, served⟩ := accepted_base_mounts accepted
  exact ⟨accepted, mounted, ((served _ mounted).1 _ _).2
    ⟨"/lsp/ws/py".toList, .socket (by decide) single, by decide +kernel⟩⟩

-- The mark of an older route pattern is accepted, although nothing can be mounted there.
theorem colon_base_unmounted : normalizeBaseUrl "/:x" = .ok "/:x" ∧ mount? "/:x" = none :=
  ⟨rfl, by decide +kernel⟩

end Http.Routes
end LanguageRelay
