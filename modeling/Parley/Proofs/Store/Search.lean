import Mathlib.Data.List.Nodup
import Mathlib.Data.Prod.Lex
import Mathlib.Data.String.Basic
import Mathlib.Order.Lattice
import Parley.Proofs.Like
import Parley.Proofs.Store.Alone
import Parley.Proofs.Text

/-!
# Looking people up by name

`Found` says whom a search is for, and `Hits` that a list has these people, each once, by name and then by identifier;
there is one such list (`Hits.unique`).

* `search_in_order`: the store in memory gives the first of them, in whatever order it goes through the profiles.
* `searched_literally`: the relational store asks for a pattern that matches a name exactly if the query stands in it,
  case aside, so for names and queries without accents both stores give the same.
-/

namespace Parley

open Store

/-! ### Whom a search is for -/

/-- Somebody of these profiles who has a name in which the query stands, both in lower case. -/
structure Found (profiles : List (String × Profile)) (query : String) (u : UserSummary) : Prop where
  known : (u.id, u.profile) ∈ profiles
  named : ∃ name, u.profile.name = some name ∧ (Text.lowercase query).toList <:+: (Text.lowercase name).toList

/-- One comes before another: the name is less, or the names are the same and the identifier is less. -/
def UserSummary.Before (a b : UserSummary) : Prop :=
  ∃ x y, a.profile.name = some x ∧ b.profile.name = some y ∧ (x < y ∨ x = y ∧ a.id < b.id)

/-- All whom a search is for, in order. -/
structure Hits (profiles : List (String × Profile)) (query : String) (all : List UserSummary) : Prop where
  ordered : all.Pairwise UserSummary.Before
  mem_iff : ∀ u, u ∈ all ↔ Found profiles query u

variable {profiles profiles' : List (String × Profile)} {query : String} {a b : UserSummary}
  {all other : List UserSummary}

namespace UserSummary.Before

theorem asymm (h : a.Before b) : ¬ b.Before a := by
  rintro ⟨y, x, hy, hx, h'⟩
  obtain ⟨x', y', hx', hy', h⟩ := h
  obtain rfl : x' = x := Option.some.inj (hx'.symm.trans hx)
  obtain rfl : y' = y := Option.some.inj (hy'.symm.trans hy)
  rcases h with h | ⟨rfl, h⟩ <;> rcases h' with h' | ⟨h'', h'⟩
  · exact lt_asymm h h'
  · exact absurd h (h'' ▸ lt_irrefl _)
  · exact absurd h' (lt_irrefl _)
  · exact lt_asymm h h'

theorem ne (h : a.Before b) : a ≠ b := by
  rintro rfl
  exact h.asymm h

end UserSummary.Before

theorem Hits.unique (h : Hits profiles query all) (h' : Hits profiles query other) : other = all := by
  have hperm : other.Perm all :=
    (List.perm_ext_iff_of_nodup (h'.ordered.imp UserSummary.Before.ne) (h.ordered.imp UserSummary.Before.ne)).mpr
      fun u => (h'.mem_iff u).trans (h.mem_iff u).symm
  exact hperm.eq_of_pairwise (fun a b _ _ hab hba => absurd hba hab.asymm) h'.ordered h.ordered

theorem Hits.of_perm (h : Hits profiles query all) (hperm : profiles'.Perm profiles) : Hits profiles' query all where
  ordered := h.ordered
  mem_iff u := (h.mem_iff u).trans
    ⟨fun hu => ⟨hperm.mem_iff.mpr hu.known, hu.named⟩, fun hu => ⟨hperm.mem_iff.mp hu.known, hu.named⟩⟩

/-! ### The order of a search -/

namespace MemoryStore

/-- What a search goes by. -/
def searchKey (u : UserSummary) : String ×ₗ String := toLex (u.profile.name.getD "", u.id)

theorem summaryLe_iff : summaryLe a b = true ↔ searchKey a ≤ searchKey b := by
  rw [searchKey, searchKey, Prod.Lex.toLex_le_toLex]
  simp only [summaryLe, Bool.or_eq_true, Bool.and_eq_true, decide_eq_true_eq, beq_iff_eq, le_iff_lt_or_eq]

theorem summaryLe_trans (a b c : UserSummary) : summaryLe a b → summaryLe b c → summaryLe a c := by
  simp only [summaryLe_iff]
  exact le_trans

theorem summaryLe_total (a b : UserSummary) : summaryLe a b || summaryLe b a := by
  simp only [Bool.or_eq_true, summaryLe_iff]
  exact le_total _ _

/-! ### The store in memory -/

theorem mem_matching {u : UserSummary} : u ∈ matching profiles query ↔ Found profiles query u := by
  simp only [matching, List.mem_filterMap]
  constructor
  · rintro ⟨⟨id, p⟩, hmem, h⟩
    dsimp only at h
    split at h
    · rename_i name hname
      split_ifs at h with hinfix
      cases h
      exact ⟨hmem, name, hname, Text.isInfix_iff.mp hinfix⟩
    · cases h
  · rintro ⟨hmem, name, hname, hinfix⟩
    exact ⟨(u.id, u.profile), hmem, by simp [hname, Text.isInfix_iff.mpr hinfix]⟩

theorem nodup_ids_matching (hkeys : (profiles.map Prod.fst).Nodup) :
    ((matching profiles query).map UserSummary.id).Nodup := by
  refine List.pairwise_map.mpr
    (List.pairwise_filterMap.mpr ((List.pairwise_map.mp hkeys).imp fun {p q} hne u hu v hv => ?_))
  have hid : ∀ {p : String × Profile} {u : UserSummary}, u ∈ matching [p] query → u.id = p.1 := by
    intro p u hu
    simpa using congrArg Prod.fst (List.mem_singleton.mp (mem_matching.mp hu).known)
  rwa [hid (p := p) (List.mem_filterMap.mpr ⟨p, List.mem_singleton_self p, hu⟩),
    hid (p := q) (List.mem_filterMap.mpr ⟨q, List.mem_singleton_self q, hv⟩)]

theorem hits_sorted (query : String) (hkeys : (profiles.map Prod.fst).Nodup) :
    Hits profiles query ((matching profiles query).mergeSort summaryLe) := by
  have hperm := List.mergeSort_perm (matching profiles query) summaryLe
  have hmem : ∀ u, u ∈ (matching profiles query).mergeSort summaryLe ↔ Found profiles query u :=
    fun u => hperm.mem_iff.trans mem_matching
  refine ⟨?_, hmem⟩
  have hids : ((matching profiles query).mergeSort summaryLe).Pairwise fun a b => a.id ≠ b.id :=
    List.pairwise_map.mp ((hperm.map _).nodup_iff.mpr (nodup_ids_matching hkeys))
  have hsorted := List.pairwise_mergeSort summaryLe_trans summaryLe_total (matching profiles query)
  refine (hsorted.and hids).imp_of_mem fun {a b} ha hb hab => ?_
  obtain ⟨hle, hne⟩ := hab
  obtain ⟨x, hx, -⟩ := ((hmem a).mp ha).named
  obtain ⟨y, hy, -⟩ := ((hmem b).mp hb).named
  refine ⟨x, y, hx, hy, ?_⟩
  rw [summaryLe_iff, searchKey, searchKey, Prod.Lex.toLex_le_toLex, hx, hy] at hle
  exact hle.imp id fun h => ⟨h.1, lt_of_le_of_ne h.2 hne⟩

/-- **A search gives the first of those whom it is for**, by name and then by identifier, in whatever order the profiles
are gone through. -/
theorem search_in_order (s : MemoryStore) (hkeys : (s.profiles.map Prod.fst).Nodup) (query : String) (limit : ℤ) :
    ∃ all, Hits s.profiles query all ∧ (∀ other, Hits s.profiles query other → other = all) ∧
      ∀ profiles, profiles.Perm s.profiles →
        ({ s with profiles } : MemoryStore).searchUsers query limit = s.whenAvailable (.ok (all.take limit.toNat)) := by
  have hits := hits_sorted query hkeys
  refine ⟨_, hits, fun other => hits.unique, fun profiles hperm => ?_⟩
  have hkeys' : (profiles.map Prod.fst).Nodup := (hperm.map _).nodup_iff.mpr hkeys
  have hsame := (hits.of_perm hperm).unique (hits_sorted query hkeys')
  rw [searchUsers, hsame]
  rfl

/-- Two people of one name, and one without. -/
def twoAdas : MemoryStore where
  profiles := [("u2", { name := some "Ada" }), ("u3", {}), ("u1", { name := some "Ada" })]

theorem search_in_order_twoAdas :
    (twoAdas.profiles.map Prod.fst).Nodup ∧ ∃ all, Hits twoAdas.profiles "D" all ∧
      (∀ other, Hits twoAdas.profiles "D" other → other = all) ∧
      ∀ profiles, profiles.Perm twoAdas.profiles →
        ({ twoAdas with profiles } : MemoryStore).searchUsers "D" 1 =
          twoAdas.whenAvailable (.ok (all.take (1 : ℤ).toNat)) :=
  have hkeys : (twoAdas.profiles.map Prod.fst).Nodup := by decide
  ⟨hkeys, search_in_order twoAdas hkeys "D" 1⟩

end MemoryStore

/-! ### The relational store -/

namespace Store

theorem runs_searchUsers (t : Tables) (query : String) (limit : ℤ) :
    Runs t none (searchUsers query limit) (.ok (t.search (Like.containing query) limit)) t := by
  have hexec : t.execute none (.search (Like.containing query) limit) =
      (.ok (.users (t.search (Like.containing query) limit)), t, none) := by
    simp [Tables.execute, Tables.evaluate]
  exact .read hexec (.done t none _)

def AsciiNames (profiles : List (String × Profile)) : Prop :=
  ∀ p ∈ profiles, ∀ name ∈ p.2.name, ∀ c ∈ name.toList, Text.IsAscii c

instance (profiles : List (String × Profile)) : Decidable (AsciiNames profiles) :=
  decidable_of_iff (profiles.all fun p => p.2.name.toList.all fun name => name.toList.all fun c =>
    decide (Text.IsAscii c))
    (by simp [AsciiNames])

/-- Without accents, letters that are compared one by one make the same of two texts as their lower case. -/
theorem accepts_sameLetter_iff (hquery : ∀ c ∈ query.toList, Text.IsAscii c) {name : String}
    (hname : ∀ c ∈ name.toList, Text.IsAscii c) : Like.accepts Like.sameLetter (Like.containing query) name = true ↔
      (Text.lowercase query).toList <:+: (Text.lowercase name).toList := by
  rw [Text.toList_lowercase hquery, Text.toList_lowercase hname]
  exact Like.accepts_containing Text.lowerChar query name

theorem search_eq (hquery : ∀ c ∈ query.toList, Text.IsAscii c) {t : Tables} (hnames : AsciiNames t.users) (limit : ℤ) :
    t.search (Like.containing query) limit =
      ((MemoryStore.matching t.users query).mergeSort MemoryStore.summaryLe).take (rows limit) := by
  refine congrArg (fun found : List UserSummary => (found.mergeSort MemoryStore.summaryLe).take (rows limit)) ?_
  refine List.filterMap_congr fun p hmem => ?_
  cases hp : p.2.name with
  | none => simp only [hp]
  | some name =>
    have hiff := (accepts_sameLetter_iff hquery (hnames p hmem name hp)).trans Text.isInfix_iff.symm
    simp only [hp, hiff]

/-- A search for a text is one for the text as it is. -/
structure Literal (query : String) : Prop where
  /-- The pattern is any sequence, the characters of the text, and any sequence: no escape is left over. -/
  parts : Like.parts? (Like.containing query).toList = some (.anySequence :: (query.toList.map .char ++ [.anySequence]))
  /-- It accepts what it matches by the rules of patterns, however characters are compared, -/
  matcher : ∀ same text, Like.accepts same (Like.containing query) text = true ↔
    Like.Matches same (Like.containing query).toList text.toList
  /-- which are the texts in which the query stands, -/
  exact : ∀ text, Like.accepts (· == ·) (Like.containing query) text = true ↔ query.toList <:+: text.toList
  /-- or in which it stands in lower case. -/
  caseless : ∀ text, Like.accepts (fun c d => c.toLower == d.toLower) (Like.containing query) text = true ↔
    query.toList.map Char.toLower <:+: text.toList.map Char.toLower
  /-- Two stores with the same profiles, the names in them and the query without accents, give the same people in the
  same order. -/
  stores : ∀ (s : MemoryStore) (b : Backend) (limit : ℕ), s.available = true → b.faults = [] →
    b.tables.users.Perm s.profiles → (s.profiles.map Prod.fst).Nodup → AsciiNames s.profiles →
    (∀ c ∈ query.toList, Text.IsAscii c) →
    (b.call (.ok ()) (searchUsers query limit)).1 = s.searchUsers query limit

/-- **People are searched for literally**: nothing in a query has a meaning of its own, and both stores find the
same. -/
theorem searched_literally (query : String) : Literal query := by
  refine ⟨Like.parts?_containing query, fun same text => Like.accepts_iff, fun text => ?exact, fun text =>
    ?caseless, ?stores⟩
  case exact => simpa using Like.accepts_containing id query text
  case caseless => exact Like.accepts_containing Char.toLower query text
  case stores =>
    intro s b limit havailable hfaults hrows hkeys hnames hquery
    have hcall : b.call (.ok ()) (searchUsers query limit) =
        ({ b with own := none } : Backend).run (searchUsers query limit) := rfl
    have hrun := (runs_searchUsers b.tables query limit { b with own := none } hfaults rfl rfl).1
    have hnames' : AsciiNames b.tables.users := fun p hp => hnames p (hrows.mem_iff.mp hp)
    have hkeys' : (b.tables.users.map Prod.fst).Nodup := (hrows.map _).nodup_iff.mpr hkeys
    have hsame := ((MemoryStore.hits_sorted query hkeys).of_perm hrows).unique (MemoryStore.hits_sorted query hkeys')
    rw [hcall, hrun, search_eq hquery hnames', hsame, MemoryStore.searchUsers, MemoryStore.whenAvailable,
      if_pos havailable]

/-- Three people, one of whom has no name. -/
def threePeople : List (String × Profile) :=
  [("u2", { name := some "Per_Cent 50%" }), ("u1", { name := some "per_cent 50%" }), ("u3", {})]

/-- The stores hold them in different orders. -/
theorem searched_literally_threePeople :
    let s : MemoryStore := { profiles := threePeople }
    let b : Backend := { tables := { users := threePeople.reverse } }
    s.available = true ∧ b.faults = [] ∧ b.tables.users.Perm s.profiles ∧ (s.profiles.map Prod.fst).Nodup ∧
      AsciiNames s.profiles ∧ (∀ c ∈ "R_CENT 50%".toList, Text.IsAscii c) ∧
      (b.call (.ok ()) (searchUsers "R_CENT 50%" 10)).1 = s.searchUsers "R_CENT 50%" 10 := by
  have hnames : AsciiNames threePeople := by decide
  have hkeys : (threePeople.map Prod.fst).Nodup := by decide
  have hletters : ("R_CENT 50%".toList.all fun c => decide (Text.IsAscii c)) = true := by decide
  have hquery : ∀ c ∈ "R_CENT 50%".toList, Text.IsAscii c :=
    fun c hc => of_decide_eq_true (List.all_eq_true.mp hletters c hc)
  refine ⟨rfl, rfl, List.reverse_perm _, hkeys, hnames, hquery, ?_⟩
  exact (searched_literally "R_CENT 50%").stores _ _ 10 rfl rfl (List.reverse_perm _) hkeys hnames hquery

end Store

end Parley
