import Mathlib.Data.List.Induction
import LanguageRelay.Finder.Registry
import LanguageRelay.Proofs.Keyed
namespace LanguageRelay.Finder
variable {host : Host} {context : FinderContext} {finders before after : List Finder} {finder other : Finder}
  {key : String} {spec : LaunchSpec}

-- What a finder has under a key when it succeeds, if that is the specification's own key.
def Offers (finder : Finder) (host : Host) (context : FinderContext) (key : String)
    (spec : LaunchSpec) : Prop :=
  ∃ found, finder.find host context = .ok found ∧ found.find? key = some spec ∧ spec.key = key

def LastOffer (finders : List Finder) (host : Host) (context : FinderContext) (key : String)
    (spec : LaunchSpec) : Prop :=
  ∃ before finder after, finders = before ++ finder :: after ∧ finder.Offers host context key spec ∧
    ∀ later ∈ after, ∀ other, ¬ later.Offers host context key other

-- Where a finder succeeds it gives a map, with every key once and in order.
def FindsMap (host : Host) (context : FinderContext) (finder : Finder) : Prop :=
  ∀ found, finder.find host context = .ok found → found.Ascends

def offered : Finding → Keyed LaunchSpec
  | .ok found => ownKeys found
  | .error _ => []

theorem merge_eq_override (specs : Keyed LaunchSpec) (finding : Finding) :
    merge specs finding = Keyed.override specs (offered finding) := by
  cases finding <;> rfl

theorem FindsMap.ascends_offered (maps : finder.FindsMap host context) :
    (offered (finder.find host context)).Ascends := by
  cases finding : finder.find host context with
  | error _ => exact List.Pairwise.nil
  | ok found => exact (maps found finding).filter _

theorem FindsMap.find?_offered (maps : finder.FindsMap host context) :
    (offered (finder.find host context)).find? key = some spec ↔ finder.Offers host context key spec := by
  rw [Keyed.find?_eq_some_iff maps.ascends_offered]
  cases finding : finder.find host context with
  | error failure => simp [offered, Offers, finding]
  | ok found =>
    simp only [offered, Offers, finding, Except.ok.injEq, exists_eq_left',
      Keyed.find?_eq_some_iff (maps found finding)]
    exact List.mem_filter.trans (and_congr_right fun _ => beq_iff_eq)

theorem resolve_concat (finders : List Finder) (finder : Finder) (host : Host)
    (context : FinderContext) : resolve (finders ++ [finder]) host context =
      Keyed.override (resolve finders host context) (offered (finder.find host context)) := by
  rw [← merge_eq_override]
  simp [resolve]

theorem ascends_resolve (finders : List Finder) (host : Host) (context : FinderContext) :
    (resolve finders host context).Ascends := by
  induction finders using List.reverseRecOn with
  | nil => exact List.Pairwise.nil
  | append_singleton finders finder ih =>
    rw [resolve_concat]
    exact Keyed.ascends_override ih _

theorem resolve_append (before : List Finder) (maps : ∀ finder ∈ after, finder.FindsMap host context) :
    resolve (before ++ after) host context =
      Keyed.override (resolve before host context) (resolve after host context) := by
  induction after using List.reverseRecOn with
  | nil => rw [List.append_nil]; rfl
  | append_singleton after finder ih =>
    have last : finder.FindsMap host context := maps finder (by simp)
    have first := ih fun earlier member => maps earlier (List.mem_append_left _ member)
    rw [← List.append_assoc, resolve_concat, first, resolve_concat,
      Keyed.override_assoc (ascends_resolve before host context) (ascends_resolve after host context)
        last.ascends_offered]

theorem lastOffer_cons : LastOffer (finder :: finders) host context key spec ↔
    LastOffer finders host context key spec ∨
      finder.Offers host context key spec ∧
        ∀ later ∈ finders, ∀ other, ¬ later.Offers host context key other := by
  constructor
  · rintro ⟨before, last, after, split, offer, done⟩
    cases before with
    | nil => cases split; exact .inr ⟨offer, done⟩
    | cons first before =>
      cases split
      exact .inl ⟨before, last, after, rfl, offer, done⟩
  · rintro (⟨before, last, after, rfl, offer, done⟩ | ⟨offer, done⟩)
    · exact ⟨finder :: before, last, after, rfl, offer, done⟩
    · exact ⟨[], finder, finders, rfl, offer, done⟩

theorem exists_lastOffer (member : finder ∈ finders) (offer : finder.Offers host context key spec) :
    ∃ last, LastOffer finders host context key last := by
  induction finders generalizing finder spec with
  | nil => cases member
  | cons first rest ih =>
    by_cases further : ∃ later ∈ rest, ∃ other, later.Offers host context key other
    · obtain ⟨later, inside, other, offer⟩ := further
      obtain ⟨last, lasts⟩ := ih inside offer
      exact ⟨last, lastOffer_cons.2 (.inl lasts)⟩
    · rcases List.mem_cons.1 member with rfl | inside
      · exact ⟨spec, lastOffer_cons.2 (.inr ⟨offer, fun later inside other offer =>
          further ⟨later, inside, other, offer⟩⟩)⟩
      · exact absurd ⟨finder, inside, spec, offer⟩ further

theorem find?_resolve (maps : ∀ finder ∈ finders, finder.FindsMap host context) :
    (resolve finders host context).find? key = some spec ↔ LastOffer finders host context key spec := by
  induction finders generalizing spec with
  | nil => simp [resolve, Keyed.find?, LastOffer]
  | cons finder rest ih =>
    have first := maps finder List.mem_cons_self
    have others : ∀ later ∈ rest, later.FindsMap host context := fun later member =>
      maps later (List.mem_cons_of_mem _ member)
    have alone : resolve [finder] host context = offered (finder.find host context) :=
      (resolve_concat [] finder host context).trans first.ascends_offered.ofList
    have split : resolve (finder :: rest) host context =
        Keyed.override (resolve [finder] host context) (resolve rest host context) :=
      resolve_append [finder] others
    have silent : (resolve rest host context).find? key = none ↔
        ∀ later ∈ rest, ∀ other, ¬ later.Offers host context key other := by
      constructor
      · intro none later member other offer
        obtain ⟨last, lasts⟩ := exists_lastOffer member offer
        rw [(ih others).2 lasts] at none
        cases none
      · intro none
        refine Option.eq_none_iff_forall_ne_some.2 fun last found => ?_
        obtain ⟨before, later, after, rfl, offer, -⟩ := (ih others).1 found
        exact none later (by simp) last offer
    rw [split, Keyed.find?_override (ascends_resolve rest host context), alone, lastOffer_cons,
      ← ih others, ← first.find?_offered, ← silent, Option.or_eq_some_iff, and_comm (a := _ = none)]

theorem resolve_of_offered (same : offered (finder.find host context) = offered (other.find host context)) :
    resolve (before ++ finder :: after) host context = resolve (before ++ other :: after) host context := by
  have step : ∀ specs, merge specs (finder.find host context) = merge specs (other.find host context) := by
    intro specs
    rw [merge_eq_override, merge_eq_override, same]
  simp [resolve, step]

theorem resolve_of_fails {failure : FindFailure} (fails : finder.find host context = .error failure) :
    resolve (before ++ finder :: after) host context = resolve (before ++ after) host context := by
  simp [resolve, fails, merge]

theorem ownKeys_mismatched {front back : Keyed LaunchSpec} (mismatched : spec.key ≠ key) :
    ownKeys (front ++ (key, spec) :: back) = ownKeys (front ++ back) := by
  simp [ownKeys, mismatched]

-- A key is bound to the last offer for it and to nothing else, and always to a specification with that
-- key. A finder that fails could be left out, a mismatched specification too, and a list of finders may
-- be asked in two parts.
theorem last_offer_stands (finders : List Finder) (host : Host) (context : FinderContext)
    (maps : ∀ finder ∈ finders, finder.FindsMap host context) :
    (resolve finders host context).Ascends ∧
    (∀ key spec, (resolve finders host context).find? key = some spec ↔
      LastOffer finders host context key spec) ∧
    (∀ e ∈ resolve finders host context, e.2.key = e.1) ∧
    (∀ before finder after failure, finders = before ++ finder :: after →
      finder.find host context = .error failure →
      resolve finders host context = resolve (before ++ after) host context) ∧
    (∀ before finder after front key spec back other, finders = before ++ finder :: after →
      finder.find host context = .ok (front ++ (key, spec) :: back) → spec.key ≠ key →
      other.find host context = .ok (front ++ back) →
      resolve finders host context = resolve (before ++ other :: after) host context) ∧
    ∀ before after, finders = before ++ after →
      resolve finders host context =
        Keyed.override (resolve before host context) (resolve after host context) ∧
      ∀ key, (resolve finders host context).find? key =
        ((resolve after host context).find? key).or ((resolve before host context).find? key) := by
  have ascends := ascends_resolve finders host context
  refine ⟨ascends, fun key spec => find?_resolve maps, fun ⟨key, spec⟩ member => ?_, ?_, ?_, ?_⟩
  · obtain ⟨-, finder, -, -, ⟨-, -, -, own⟩, -⟩ := (find?_resolve maps).1 (Keyed.find?_of_mem ascends member)
    exact own
  · rintro before finder after failure rfl fails
    exact resolve_of_fails fails
  · rintro before finder after front key spec back other rfl finds mismatched finds'
    refine resolve_of_offered ?_
    rw [finds, finds']
    exact ownKeys_mismatched mismatched
  · rintro before after rfl
    have split := resolve_append before fun finder member =>
      maps finder (List.mem_append_right _ member)
    exact ⟨split, fun key => by rw [split, Keyed.find?_override (ascends_resolve after host context)]⟩

def bare (key program : String) : LaunchSpec := ⟨key, program, [], [], LaunchSpec.defaultVersion, none, [], []⟩

-- The last finder describes another server under the key of the first one's server, and one that has been
-- found before; between them one fails and one crashes.
def rivals : List Finder := [
  ⟨"first", fun _ _ => .ok [("pyls", bare "pyls" "pyls"), ("r", bare "r" "r-ls")]⟩,
  ⟨"failing", fun _ _ => .error (.other "finder exploded")⟩,
  ⟨"panicking", fun _ _ => .error .crashed⟩,
  ⟨"confused", fun _ _ => .ok [("pyls", bare "other" "x"), ("r", bare "r" "new-r-ls")]⟩]

theorem last_offer_stands_among_rivals : (∀ finder ∈ rivals, finder.FindsMap default default) ∧
    (resolve rivals default default).find? "pyls" = some (bare "pyls" "pyls") ∧
    (resolve rivals default default).find? "r" = some (bare "r" "new-r-ls") := by
  have maps : ∀ finder ∈ rivals, finder.FindsMap default default := by
    intro finder member found finds
    simp only [rivals, List.mem_cons, List.not_mem_nil, or_false] at member
    rcases member with rfl | rfl | rfl | rfl <;> cases finds <;> decide
  obtain ⟨-, offers, -⟩ := last_offer_stands rivals default default maps
  refine ⟨maps, (offers _ _).2 ⟨[], _, _, rfl, ⟨_, rfl, by decide, rfl⟩, ?_⟩,
    (offers _ _).2 ⟨rivals.take 3, _, [], rfl, ⟨_, rfl, by decide, rfl⟩, fun _ member => nomatch member⟩⟩
  rintro later member other ⟨found, finds, under, own⟩
  simp only [List.mem_cons, List.not_mem_nil, or_false] at member
  rcases member with rfl | rfl | rfl <;> cases finds
  cases under
  exact absurd own (by decide)

end LanguageRelay.Finder
