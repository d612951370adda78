import Cuber.Core.Loop
import Cuber.Base.Text

/-!
# The location search

`HttpAccessHandler` shortens the request path at its slashes until it meets a
configured location.  The strings it tries are the path itself and its proper
prefixes that end in a slash; `searchLocation_spec` says that the search finds
a configured one among them whenever there is one.
-/

namespace Cuber.LocationSearch

open Cuber.Loop
open Cuber.Text

/-! ## Searching backwards -/

/-- Nothing is found where the byte does not occur. -/
theorem rfind_eq_none_iff {byte : Byte} {text : Bytes} :
    rfind byte text = none ↔ byte ∉ text := by
  induction text with
  | nil => simp [rfind]
  | cons head tail ih =>
      rw [rfind]
      cases htail : rfind byte tail with
      | some index =>
          have hmem : byte ∈ tail := by
            by_contra hnot
            simp [ih.mpr hnot] at htail
          simp [hmem]
      | none =>
          have hnot : byte ∉ tail := ih.mp htail
          by_cases hhead : head = byte
          · simp [hhead]
          · simp [hhead, hnot, Ne.symm hhead]

/-- The text up to the last occurrence of a byte. -/
theorem rfind_eq_some {byte : Byte} {text : Bytes} {index : ℕ}
    (hfind : rfind byte text = some index) :
    ∃ before after, text = before ++ byte :: after ∧
      before.length = index ∧ byte ∉ after := by
  induction text generalizing index with
  | nil => simp [rfind] at hfind
  | cons head tail ih =>
      rw [rfind] at hfind
      cases htail : rfind byte tail with
      | some last =>
          rw [htail] at hfind
          cases hfind
          obtain ⟨before, after, rfl, rfl, hafter⟩ := ih htail
          exact ⟨head :: before, after, rfl, rfl, hafter⟩
      | none =>
          rw [htail] at hfind
          simp only at hfind
          split_ifs at hfind with hhead
          cases hfind
          exact ⟨[], tail, by rw [hhead]; rfl, rfl, rfind_eq_none_iff.mp htail⟩

/-! ## The search -/

/-- One iteration of the loop of `HttpAccessHandler::handle`.  The string it
hands on ends in the slash just found, so `!reqPath.empty()` always holds. -/
def searchStep (locations : Finset Bytes) (reqPath : Bytes) :
    Step Bytes (Option Bytes) :=
  if reqPath ∈ locations then .done (some reqPath)
  else if reqPath.length = 1 then .done none
  else
    let newPos := if reqPath.length ≥ 2 then reqPath.length - 2 else 0
    match rfind slash (reqPath.take (newPos + 1)) with
    | none => .done none
    | some pos => .next (reqPath.take (pos + 1))

theorem searchStep_concat {locations : Finset Bytes} {front : Bytes} {last : Byte}
    (hfront : front ≠ []) (hmem : front ++ [last] ∉ locations) :
    searchStep locations (front ++ [last]) =
      match rfind slash front with
      | none => .done none
      | some pos => .next ((front ++ [last]).take (pos + 1)) := by
  have hpos : 0 < front.length := List.length_pos_of_ne_nil hfront
  rw [searchStep, if_neg hmem, List.length_append, List.length_singleton,
    if_neg (by omega), if_pos (by omega)]
  simp only [show front.length + 1 - 2 + 1 = front.length by omega, List.take_left]

/-- An iteration that goes on cuts the path after the last slash that is not
its last byte. -/
theorem searchStep_next {locations : Finset Bytes} {reqPath shorter : Bytes}
    (hstep : searchStep locations reqPath = .next shorter) :
    reqPath ∉ locations ∧
      ∃ before after last, shorter = before ++ [slash] ∧
        reqPath = before ++ slash :: (after ++ [last]) ∧ slash ∉ after := by
  have hmem : reqPath ∉ locations := by
    intro hmem
    simp [searchStep, hmem] at hstep
  refine ⟨hmem, ?_⟩
  rcases List.eq_nil_or_concat' reqPath with rfl | ⟨front, last, rfl⟩
  · simp [searchStep, hmem, rfind] at hstep
  · have hfront : front ≠ [] := by
      rintro rfl
      rw [List.nil_append] at hmem hstep
      simp [searchStep, hmem] at hstep
    rw [searchStep_concat hfront hmem] at hstep
    cases hfind : rfind slash front with
    | none => simp [hfind] at hstep
    | some pos =>
        rw [hfind] at hstep
        cases hstep
        obtain ⟨before, after, rfl, rfl, hafter⟩ := rfind_eq_some hfind
        exact ⟨before, after, last, by simp [List.take_append], by simp, hafter⟩

theorem searchStep_length_lt {locations : Finset Bytes} {reqPath shorter : Bytes}
    (hstep : searchStep locations reqPath = .next shorter) :
    shorter.length < reqPath.length := by
  obtain ⟨_, before, after, last, rfl, rfl, _⟩ := searchStep_next hstep
  simp

def searchLoop (locations : Finset Bytes) : TotalLoop Bytes (Option Bytes) where
  body := searchStep locations
  measure := List.length
  measure_lt := searchStep_length_lt

/-- The location found from `reqPath` downwards. -/
def searchLocation (locations : Finset Bytes) (reqPath : Bytes) : Option Bytes :=
  (searchLoop locations).exec reqPath

/-- The strings the search tries: the path and its proper prefixes that end in
a slash. -/
def IsCandidate (path location : Bytes) : Prop :=
  location ≠ [] ∧ location <+: path ∧
    (location = path ∨ location.getLast? = some slash)

/-- Apart from the path itself, its candidates are those of its next shorter
candidate. -/
theorem isCandidate_iff_of_slash {before after : Bytes} {last : Byte}
    (hafter : slash ∉ after) (location : Bytes) :
    IsCandidate (before ++ slash :: (after ++ [last])) location ↔
      location = before ++ slash :: (after ++ [last]) ∨
        IsCandidate (before ++ [slash]) location := by
  constructor
  · rintro ⟨hne, hbegins, rfl | hlast⟩
    · exact Or.inl rfl
    · by_cases hfull : location = before ++ slash :: (after ++ [last])
      · exact Or.inl hfull
      · refine Or.inr ⟨hne, ?_, Or.inr hlast⟩
        obtain ⟨front, rfl⟩ := List.getLast?_eq_some_iff.mp hlast
        obtain ⟨rest, hrest⟩ := hbegins
        have hproper : rest ≠ [] := by
          rintro rfl
          exact hfull (by rw [← hrest, List.append_nil])
        by_contra hnot
        -- a longer candidate would end in a slash lying inside `after`
        have hlong : before.length < front.length := by
          by_contra hle
          have hshort : before ++ [slash] <+: before ++ slash :: (after ++ [last]) :=
            ⟨after ++ [last], by simp⟩
          refine hnot (List.prefix_of_prefix_length_le ⟨rest, hrest⟩ hshort ?_)
          simp only [List.length_append, List.length_singleton]
          omega
        have hlengths := congrArg List.length hrest
        simp only [List.length_append, List.length_cons] at hlengths
        have hrestPos : 0 < rest.length := List.length_pos_of_ne_nil hproper
        have hget := congrArg (fun text => text[front.length]?) hrest
        rw [List.getElem?_append_left (by simp), List.getElem?_append_right le_rfl,
          List.getElem?_append_right (by omega)] at hget
        obtain ⟨offset, hoffset⟩ :
            ∃ offset, front.length - before.length = offset + 1 :=
          ⟨front.length - before.length - 1, by omega⟩
        rw [hoffset, List.getElem?_cons_succ,
          List.getElem?_append_left (by omega)] at hget
        simp only [Nat.sub_self, List.getElem?_cons_zero] at hget
        exact hafter (List.mem_of_getElem? hget.symm)
  · rintro (rfl | ⟨hne, hbegins, hend⟩)
    · exact ⟨by simp, List.prefix_rfl, Or.inl rfl⟩
    · refine ⟨hne, hbegins.trans ⟨after ++ [last], by simp⟩, Or.inr ?_⟩
      rcases hend with rfl | hlast
      · simp
      · exact hlast

/-- What the search returns: the longest configured candidate, or nothing when
no candidate is configured. -/
def IsSearchResult (locations : Finset Bytes) (path : Bytes) :
    Option Bytes → Prop
  | some location =>
      location ∈ locations ∧ IsCandidate path location ∧
        ∀ other ∈ locations, IsCandidate path other →
          other.length ≤ location.length
  | none => ∀ location ∈ locations, ¬ IsCandidate path location

/-- An iteration that ends the search has found the longest candidate. -/
theorem isSearchResult_of_done {locations : Finset Bytes} {reqPath : Bytes}
    {result : Option Bytes} (hne : reqPath ≠ [])
    (hstep : searchStep locations reqPath = .done result) :
    IsSearchResult locations reqPath result := by
  by_cases hmem : reqPath ∈ locations
  · rw [searchStep, if_pos hmem] at hstep
    cases hstep
    exact ⟨hmem, ⟨hne, List.prefix_rfl, Or.inl rfl⟩, fun other _ hother =>
      hother.2.1.length_le⟩
  · obtain ⟨front, last, rfl⟩ := (List.eq_nil_or_concat' reqPath).resolve_left hne
    -- every other candidate ends in a slash of `front`
    have hslash : ∀ location, IsCandidate (front ++ [last]) location →
        location ≠ front ++ [last] → slash ∈ front := by
      rintro location ⟨_, hbegins, rfl | hlast⟩ hproper
      · exact absurd rfl hproper
      · obtain ⟨before, rfl⟩ := List.getLast?_eq_some_iff.mp hlast
        rcases List.prefix_concat_iff.mp hbegins with hfull | hfront
        · exact absurd hfull hproper
        · exact hfront.subset (by simp)
    have hnone : result = none ∧ slash ∉ front := by
      by_cases hfront : front = []
      · subst hfront
        rw [List.nil_append] at hmem hstep
        rw [searchStep, if_neg hmem, if_pos List.length_singleton] at hstep
        cases hstep
        exact ⟨rfl, by simp⟩
      · rw [searchStep_concat hfront hmem] at hstep
        cases hfind : rfind slash front with
        | none =>
            rw [hfind] at hstep
            cases hstep
            exact ⟨rfl, rfind_eq_none_iff.mp hfind⟩
        | some pos => simp [hfind] at hstep
    obtain ⟨rfl, hfree⟩ := hnone
    intro location hlocation hcandidate
    apply hfree
    apply hslash location hcandidate
    rintro rfl
    exact hmem hlocation

/-- An iteration that goes on has passed no candidate. -/
theorem isSearchResult_of_next {locations : Finset Bytes} {reqPath shorter : Bytes}
    {result : Option Bytes}
    (hstep : searchStep locations reqPath = .next shorter)
    (hresult : IsSearchResult locations shorter result) :
    IsSearchResult locations reqPath result := by
  obtain ⟨hmem, before, after, last, rfl, rfl, hafter⟩ := searchStep_next hstep
  cases result with
  | some location =>
      obtain ⟨hlocation, hcandidate, hlongest⟩ := hresult
      refine ⟨hlocation, (isCandidate_iff_of_slash hafter location).mpr
        (Or.inr hcandidate), fun other hother hcandidate' => ?_⟩
      rcases (isCandidate_iff_of_slash hafter other).mp hcandidate' with
        rfl | hshorter
      · exact absurd hother hmem
      · exact hlongest other hother hshorter
  | none =>
      intro location hlocation hcandidate
      rcases (isCandidate_iff_of_slash hafter location).mp hcandidate with
        rfl | hshorter
      · exact hmem hlocation
      · exact hresult location hlocation hshorter

/-- The search finds the longest configured candidate of a non-empty path. -/
theorem searchLocation_spec (locations : Finset Bytes) {path : Bytes}
    (hne : path ≠ []) :
    IsSearchResult locations path (searchLocation locations path) :=
  (searchLoop locations).exec_induction
    (motive := fun reqPath result =>
      reqPath ≠ [] → IsSearchResult locations reqPath result)
    (fun _ _ hstep hne => isSearchResult_of_done hne hstep)
    (fun _ _ hstep ih _ => by
      apply isSearchResult_of_next hstep
      apply ih
      obtain ⟨_, before, after, last, rfl, _⟩ := searchStep_next hstep
      simp)
    path hne

/-- The search finds nothing just if no location is a candidate. -/
theorem searchLocation_eq_none_iff {locations : Finset Bytes} {path : Bytes}
    (hne : path ≠ []) :
    searchLocation locations path = none ↔
      ∀ location ∈ locations, ¬ IsCandidate path location := by
  have hspec := searchLocation_spec locations hne
  constructor
  · intro hnone
    rwa [hnone] at hspec
  · intro hfree
    cases hsearch : searchLocation locations path with
    | none => rfl
    | some location =>
        rw [hsearch] at hspec
        exact absurd hspec.2.1 (hfree location hspec.1)

/-- The longest of the candidates, which are prefixes of one path, is unique. -/
theorem isSearchResult_unique {locations : Finset Bytes} {path : Bytes}
    {result result' : Option Bytes} (hresult : IsSearchResult locations path result)
    (hresult' : IsSearchResult locations path result') : result = result' := by
  cases result with
  | none =>
      cases result' with
      | none => rfl
      | some location => exact absurd hresult'.2.1 (hresult location hresult'.1)
  | some location =>
      cases result' with
      | none => exact absurd hresult.2.1 (hresult' location hresult.1)
      | some other =>
          have hlength : location.length = other.length :=
            le_antisymm (hresult'.2.2 location hresult.1 hresult.2.1)
              (hresult.2.2 other hresult'.1 hresult'.2.1)
          have hbegins := List.prefix_of_prefix_length_le hresult.2.1.2.1
            hresult'.2.1.2.1 hlength.le
          rw [hbegins.eq_of_length hlength]

theorem searchLocation_eq_of_isSearchResult {locations : Finset Bytes} {path : Bytes}
    {result : Option Bytes} (hne : path ≠ [])
    (hresult : IsSearchResult locations path result) :
    searchLocation locations path = result :=
  isSearchResult_unique (searchLocation_spec locations hne) hresult

/-- Only the candidates among the locations matter to the search. -/
theorem searchLocation_congr {locations locations' : Finset Bytes} {path : Bytes}
    (hne : path ≠ []) (hsame : ∀ location, IsCandidate path location →
      (location ∈ locations ↔ location ∈ locations')) :
    searchLocation locations path = searchLocation locations' path := by
  apply searchLocation_eq_of_isSearchResult hne
  have hspec := searchLocation_spec locations' hne
  cases hsearch : searchLocation locations' path with
  | none =>
      rw [hsearch] at hspec
      intro location hlocation hcandidate
      exact hspec location ((hsame location hcandidate).mp hlocation) hcandidate
  | some found =>
      rw [hsearch] at hspec
      obtain ⟨hfound, hcandidate, hlongest⟩ := hspec
      refine ⟨(hsame found hcandidate).mpr hfound, hcandidate, ?_⟩
      intro other hother hcandidate'
      exact hlongest other ((hsame other hcandidate').mp hother) hcandidate'

/-- A path that is a location is found as it is. -/
theorem searchLocation_self_iff {locations : Finset Bytes} {path : Bytes} (hne : path ≠ []) :
    searchLocation locations path = some path ↔ path ∈ locations := by
  constructor
  · intro hsearch
    have hspec := searchLocation_spec locations hne
    rw [hsearch] at hspec
    exact hspec.1
  · intro hpath
    apply searchLocation_eq_of_isSearchResult hne
    exact ⟨hpath, ⟨hne, List.prefix_rfl, Or.inl rfl⟩, fun other _ hother =>
      hother.2.1.length_le⟩

end Cuber.LocationSearch
