import Cuber.Http.StaticSearch
import Cuber.Server.Outcome

/-!
# The passes over the locations

The first pass of `onRequest` looks for a location from the whole path
downwards.  When the static files of the location do not have the target, the
next pass looks from the location without its last byte.  That byte is not
always a slash, and the string that is left is tried as it is.  This module
says for which locations the passes together still make one scan.
-/

namespace Cuber.Retries

open Cuber.Config
open Cuber.Execution
open Cuber.Handlers
open Cuber.LocationSearch
open Cuber.Loop
open Cuber.Outcome
open Cuber.Request
open Cuber.Response
open Cuber.Server
open Cuber.StaticSearch
open Cuber.Text

/-! ## One pass -/

section Pass

variable {env : Environment} {exchange : Exchange}

/-- A pass goes on with the longest location among the part of the path before the
location position and its proper prefixes that end in a slash, and leaves the
position at the last byte of the location.  Without any, the answer is 404. -/
theorem access_pass (next : Handler) (hpath : exchange.request.path ≠ []) :
    ((∃ location ∈ env.config.locations, IsCandidate
        (exchange.request.path.take exchange.request.locationEndPos) location) →
      ∃ location ∈ env.config.locations,
        IsCandidate (exchange.request.path.take exchange.request.locationEndPos) location ∧
        (∀ other ∈ env.config.locations,
          IsCandidate (exchange.request.path.take exchange.request.locationEndPos) other →
            other.length ≤ location.length) ∧
        HttpAccessHandler.handle env next exchange = next (exchange.locate location) ∧
        (exchange.locate location).request.locationEndPos = location.length - 1 ∧
        location.length - 1 < exchange.request.locationEndPos ∧
        (exchange.locate location).location = location ∧
        location ++ exchange.request.path.drop
          ((exchange.locate location).request.locationEndPos + 1) = exchange.request.path) ∧
    ((∀ location ∈ env.config.locations, ¬ IsCandidate
        (exchange.request.path.take exchange.request.locationEndPos) location) →
      HttpAccessHandler.handle env next exchange =
          .ret (.kHandleDone, exchange.setStatusCode k404NotFound) ∧
        (exchange.setStatusCode k404NotFound).response.statusCode = 404 ∧
        (exchange.setStatusCode k404NotFound).request.locationEndPos =
          exchange.request.locationEndPos) := by
  rcases @access_cases env next exchange with
    ⟨hnil, _⟩ | ⟨_, hnone, hhandle⟩ | ⟨_, location, hresult, hhandle⟩
  · exact absurd hnil hpath
  · constructor
    · rintro ⟨location, hmem, hcandidate⟩
      exact absurd hcandidate (hnone location hmem)
    · intro _
      exact ⟨hhandle, rfl, rfl⟩
  · obtain ⟨hlength, hshort, hbegins⟩ := length_location_le hresult
    constructor
    · intro _
      refine ⟨location, hresult.1, hresult.2.1, hresult.2.2, hhandle, rfl, by omega,
        location_locate hresult.2.1.1 hbegins, ?_⟩
      rw [locate_locationEndPos, Nat.sub_add_cancel hlength]
      obtain ⟨rest, hrest⟩ := hbegins
      rw [← hrest, List.drop_left]
    · intro hnone
      exact absurd hresult.2.1 (hnone location hresult.1)

end Pass

/-- Two static locations, one of which is the other without its last byte. -/
def twoStatics : ServerConfig :=
  (ServerConfig.addStatic {} { location := ascii "/ab", aliasDir := ascii "/x" }).addStatic
    { location := ascii "/a", aliasDir := ascii "/y" }

def abRequest : HttpRequest where
  method := .kGet
  version := .kHttp11
  path := ascii "/ab"
  locationEndPos := 3

theorem access_pass_abRequest :
    ∃ location ∈ twoStatics.locations,
      HttpAccessHandler.handle { config := twoStatics } HttpDefaultHandler.handle
          { request := abRequest, input := [] } =
        HttpDefaultHandler.handle
          (Exchange.locate { request := abRequest, input := [] } location) ∧
      location.length - 1 < 3 := by
  obtain ⟨location, hmem, _, _, hhandle, _, hlt, _⟩ :=
    (@access_pass { config := twoStatics } { request := abRequest, input := [] }
      HttpDefaultHandler.handle
      (by decide)).1 ⟨ascii "/ab", by decide, by decide, List.prefix_rfl, Or.inl rfl⟩
  exact ⟨location, hmem, hhandle, hlt⟩

/-! ## The scan of the first pass -/

/-- The strings that a pass looks up when it finds no location. -/
def scan (reqPath : Bytes) : List Bytes :=
  match hstep : searchStep ∅ reqPath with
  | .next shorter =>
      have _hshorter : shorter.length < reqPath.length := searchStep_length_lt hstep
      reqPath :: scan shorter
  | .done _ => [reqPath]
termination_by reqPath.length

/-- The locations that the scan of a path comes across. -/
def enumerated (locations : Finset Bytes) (path : Bytes) : List Bytes :=
  (scan path).filter (· ∈ locations)

section Scan

variable {path : Bytes}

theorem scan_of_next {shorter : Bytes} (hstep : searchStep ∅ path = .next shorter) :
    scan path = path :: scan shorter := by
  rw [scan]
  split
  · rename_i other hother
    cases hstep.symm.trans hother
    rfl
  · rename_i hdone
    cases hstep.symm.trans hdone

theorem scan_of_done {result : Option Bytes} (hstep : searchStep ∅ path = .done result) :
    scan path = [path] := by
  rw [scan]
  split
  · rename_i hnext
    cases hstep.symm.trans hnext
  · rfl

/-- A scan that ends has come to a string without a shorter candidate. -/
theorem eq_of_isCandidate_of_done {location : Bytes} {result : Option Bytes} (hne : path ≠ [])
    (hstep : searchStep ∅ path = .done result) (hcandidate : IsCandidate path location) :
    location = path := by
  by_contra hother
  have hstep' : searchStep {location} path = .done result := by
    have hmem : path ∉ ({location} : Finset Bytes) := by
      rw [Finset.mem_singleton]
      exact fun heq => hother heq.symm
    rw [← hstep, searchStep, searchStep, if_neg hmem, if_neg (Finset.notMem_empty _)]
  have hnone : result = none := by
    cases result with
    | none => rfl
    | some found => exact absurd (isSearchResult_of_done hne hstep).1 (Finset.notMem_empty _)
  have hresult := isSearchResult_of_done hne hstep'
  rw [hnone] at hresult
  exact hresult location (Finset.mem_singleton_self _) hcandidate

/-- The strings that are looked up are the candidates of the path. -/
theorem mem_scan_iff (hne : path ≠ []) (location : Bytes) :
    location ∈ scan path ↔ IsCandidate path location := by
  induction hlength : path.length using Nat.strong_induction_on generalizing path with
  | _ length ih =>
      cases hstep : searchStep ∅ path with
      | next shorter =>
          have hshorter := searchStep_length_lt hstep
          rw [scan_of_next hstep, List.mem_cons]
          obtain ⟨_, before, after, last, rfl, rfl, hafter⟩ := searchStep_next hstep
          rw [ih _ (hlength ▸ hshorter) (by simp) rfl]
          exact (isCandidate_iff_of_slash hafter location).symm
      | done result =>
          rw [scan_of_done hstep, List.mem_singleton]
          constructor
          · rintro rfl
            exact ⟨hne, List.prefix_rfl, Or.inl rfl⟩
          · exact eq_of_isCandidate_of_done hne hstep

/-- The scan goes from longer strings to shorter ones. -/
theorem pairwise_scan (hne : path ≠ []) :
    (scan path).Pairwise fun longer shorter => shorter.length < longer.length := by
  induction hlength : path.length using Nat.strong_induction_on generalizing path with
  | _ length ih =>
      cases hstep : searchStep ∅ path with
      | next shorter =>
          have hshorter := searchStep_length_lt hstep
          have hne' : shorter ≠ [] := by
            obtain ⟨_, before, after, last, rfl, rfl, _⟩ := searchStep_next hstep
            simp
          rw [scan_of_next hstep, List.pairwise_cons]
          constructor
          · intro location hlocation
            have hcandidate := (mem_scan_iff hne' location).mp hlocation
            exact hcandidate.2.1.length_le.trans_lt hshorter
          · exact ih _ (hlength ▸ hshorter) hne' rfl
      | done result =>
          rw [scan_of_done hstep]
          exact List.pairwise_singleton _ _

theorem mem_enumerated_iff {locations : Finset Bytes} (hne : path ≠ []) (location : Bytes) :
    location ∈ enumerated locations path ↔
      location ∈ locations ∧ IsCandidate path location := by
  rw [enumerated, List.mem_filter, mem_scan_iff hne, decide_eq_true_iff, and_comm]

theorem pairwise_enumerated (locations : Finset Bytes) (hne : path ≠ []) :
    (enumerated locations path).Pairwise fun longer shorter =>
      shorter.length < longer.length :=
  (pairwise_scan hne).sublist List.filter_sublist

end Scan

/-! ## The part of the scan below a position -/

/-- What is left of the enumeration for the strings of a bounded length. -/
def upTo (pos : ℕ) (locations : List Bytes) : List Bytes :=
  locations.filter (·.length ≤ pos)

theorem length_lt_of_upTo_cons {locations : List Bytes} {location : Bytes} {rest : List Bytes}
    {pos : ℕ}
    (hdecreasing : locations.Pairwise fun longer shorter => shorter.length < longer.length)
    (hupTo : upTo pos locations = location :: rest) :
    ∀ other ∈ rest, other.length < location.length := by
  have hsub : (upTo pos locations).Pairwise fun longer shorter =>
      shorter.length < longer.length :=
    hdecreasing.sublist List.filter_sublist
  rw [hupTo] at hsub
  exact (List.pairwise_cons.mp hsub).1

/-- In an enumeration that gets shorter, what follows the first string is what is
shorter than it. -/
theorem upTo_of_cons {locations : List Bytes} {location : Bytes} {rest : List Bytes} {pos : ℕ}
    (hdecreasing : locations.Pairwise fun longer shorter => shorter.length < longer.length)
    (hupTo : upTo pos locations = location :: rest) (hne : location ≠ []) :
    upTo (location.length - 1) locations = rest := by
  have hpos := List.length_pos_of_ne_nil hne
  have hfirst : location.length ≤ pos := by
    have hmem : location ∈ upTo pos locations := by
      rw [hupTo]
      exact List.mem_cons_self
    simpa using (List.mem_filter.mp hmem).2
  have htwice : upTo (location.length - 1) locations =
      upTo (location.length - 1) (upTo pos locations) := by
    rw [upTo, upTo, upTo, List.filter_filter]
    apply List.filter_congr
    intro other _
    rw [Bool.eq_iff_iff, Bool.and_eq_true, decide_eq_true_eq, decide_eq_true_eq]
    omega
  rw [htwice, hupTo, upTo, List.filter_cons_of_neg (by simp; omega)]
  apply List.filter_eq_self.mpr
  intro other hother
  have hshorter := length_lt_of_upTo_cons hdecreasing hupTo other hother
  simp only [decide_eq_true_eq]
  omega

/-- The part of the path before a position is no location, or one that the scan comes
across. -/
def Aligned (locations : Finset Bytes) (path : Bytes) (pos : ℕ) : Prop :=
  path.take pos ∈ locations → path.take pos ≠ [] → IsCandidate path (path.take pos)

theorem mem_upTo_iff {locations : Finset Bytes} {path location : Bytes} {pos : ℕ}
    (hne : path ≠ []) :
    location ∈ upTo pos (enumerated locations path) ↔
      (location ∈ locations ∧ IsCandidate path location) ∧ location.length ≤ pos := by
  rw [upTo, List.mem_filter, mem_enumerated_iff hne, decide_eq_true_iff]

/-- From such a position a pass finds the next location of the scan. -/
theorem searchLocation_of_aligned {locations : Finset Bytes} {path : Bytes} {pos : ℕ}
    (hne : path ≠ []) (hreq : path.take pos ≠ []) (haligned : Aligned locations path pos) :
    searchLocation locations (path.take pos) = (upTo pos (enumerated locations path)).head? := by
  have hsame : ∀ location ∈ locations, IsCandidate (path.take pos) location ↔
      IsCandidate path location ∧ location.length ≤ pos := by
    intro location hmem
    constructor
    · rintro ⟨hlocation, hbegins, hend⟩
      have hlength := hbegins.length_le
      rw [List.length_take] at hlength
      refine ⟨?_, by omega⟩
      rcases hend with rfl | hslash
      · exact haligned hmem hlocation
      · exact ⟨hlocation, hbegins.trans (List.take_prefix _ _), Or.inr hslash⟩
    · rintro ⟨⟨hlocation, hbegins, hend⟩, hlength⟩
      refine ⟨hlocation, ?_, ?_⟩
      · rw [List.prefix_take_iff]
        exact ⟨hbegins, hlength⟩
      · rcases hend with rfl | hslash
        · exact Or.inl (List.take_of_length_le hlength).symm
        · exact Or.inr hslash
  apply searchLocation_eq_of_isSearchResult hreq
  cases hupTo : upTo pos (enumerated locations path) with
  | nil =>
      intro location hmem hcandidate
      obtain ⟨hcandidate', hlength⟩ := (hsame location hmem).mp hcandidate
      have hlisted := (mem_upTo_iff hne).mpr ⟨⟨hmem, hcandidate'⟩, hlength⟩
      rw [hupTo] at hlisted
      cases hlisted
  | cons location rest =>
      have hlisted : location ∈ upTo pos (enumerated locations path) := by
        rw [hupTo]
        exact List.mem_cons_self
      obtain ⟨⟨hmem, hcandidate⟩, hlength⟩ := (mem_upTo_iff hne).mp hlisted
      refine ⟨hmem, (hsame location hmem).mpr ⟨hcandidate, hlength⟩, ?_⟩
      intro other hother hcandidate'
      have hother' := (mem_upTo_iff hne).mpr
        ⟨⟨hother, ((hsame other hother).mp hcandidate').1⟩,
          ((hsame other hother).mp hcandidate').2⟩
      rw [hupTo] at hother'
      rcases List.mem_cons.mp hother' with rfl | hlater
      · exact le_rfl
      · exact (length_lt_of_upTo_cons (pairwise_enumerated locations hne) hupTo other
          hlater).le

/-! ## The locations tried -/

/-- The request goes on to the next pass after a location: the location is static, and none
of its names is a file. -/
def IsExhausted (env : Environment) (path location : Bytes) : Prop :=
  ∃ aliasDir, env.config.staticPath location = some aliasDir ∧
    selectFile env (aliasDir ++ path.drop location.length) = none

def found (env : Environment) (exchange : Exchange) : Option Bytes :=
  let reqPath := exchange.request.path.take exchange.request.locationEndPos
  if reqPath = [] then none else searchLocation env.config.locations reqPath

section Found

variable {env : Environment} {exchange : Exchange} {location : Bytes}

theorem take_ne_nil_of_located (hlocated : Located env exchange location) :
    exchange.request.path.take exchange.request.locationEndPos ≠ [] := by
  intro hnil
  obtain ⟨_, ⟨hne, hbegins, _⟩, _⟩ := hlocated
  rw [hnil] at hbegins
  exact hne (List.prefix_nil.mp hbegins)

theorem found_eq_some_iff : found env exchange = some location ↔
    Located env exchange location := by
  constructor
  · intro hfound
    simp only [found] at hfound
    split_ifs at hfound with hreq
    have hspec := searchLocation_spec env.config.locations hreq
    rwa [hfound] at hspec
  · intro hlocated
    have hreq := take_ne_nil_of_located hlocated
    simp only [found, if_neg hreq]
    exact searchLocation_eq_of_isSearchResult hreq hlocated

theorem handlePass_lt {exchange' : Exchange} (hfound : found env exchange = some location)
    (hpass : handlePass env exchange = .next exchange') :
    exchange'.request.locationEndPos < exchange.request.locationEndPos := by
  have hreq := take_ne_nil_of_located (found_eq_some_iff.mp hfound)
  rcases httpHandler_again (handlePass_next hpass) with
    ⟨hpath, _⟩ | ⟨_, matched, hsearch, rfl⟩
  · rw [hpath, List.take_nil] at hreq
    exact absurd rfl hreq
  · obtain ⟨hpos, hle, _⟩ := length_location_le hsearch
    rw [locate_locationEndPos]
    omega

end Found

/-- The locations that the passes of `onRequest` find, one after the other. -/
def tried (env : Environment) (exchange : Exchange) : List Bytes :=
  match hfound : found env exchange with
  | none => []
  | some location =>
      match hpass : handlePass env exchange with
      | .next exchange' =>
          have _hlt := handlePass_lt hfound hpass
          location :: tried env exchange'
      | .done _ => [location]
termination_by exchange.request.locationEndPos

section Tried

variable {env : Environment} {exchange : Exchange} {location : Bytes}

theorem tried_of_none (hfound : found env exchange = none) : tried env exchange = [] := by
  rw [tried]
  split
  · rfl
  · rename_i other hother
    cases hfound.symm.trans hother

theorem tried_of_next {exchange' : Exchange} (hfound : found env exchange = some location)
    (hpass : handlePass env exchange = .next exchange') :
    tried env exchange = location :: tried env exchange' := by
  rw [tried]
  split
  · rename_i hnone
    cases hfound.symm.trans hnone
  · rename_i other hother
    cases hfound.symm.trans hother
    split
    · rename_i next hnext
      cases hpass.symm.trans hnext
      rfl
    · rename_i hdone
      cases hpass.symm.trans hdone

theorem tried_of_done {result : Exec Fault (Bool × Exchange)}
    (hfound : found env exchange = some location)
    (hpass : handlePass env exchange = .done result) : tried env exchange = [location] := by
  rw [tried]
  split
  · rename_i hnone
    cases hfound.symm.trans hnone
  · rename_i other hother
    cases hfound.symm.trans hother
    split
    · rename_i hnext
      cases hpass.symm.trans hnext
    · rfl

/-- A pass goes on with the location that it finds or ends there. -/
theorem handlePass_of_found (hasks : AsksForFile exchange.request)
    (hfound : found env exchange = some location) :
    (IsExhausted env exchange.request.path location →
        handlePass env exchange = .next (exchange.locate location)) ∧
      (¬ IsExhausted env exchange.request.path location →
        ∃ result, handlePass env exchange = .done result) := by
  have hlocated := found_eq_some_iff.mp hfound
  have hreq := take_ne_nil_of_located hlocated
  obtain ⟨hne, _, hlocation, hhandle⟩ := httpHandler_of_search hasks.2 hreq
    (searchLocation_eq_of_isSearchResult hreq hlocated)
  cases hstatic : env.config.staticPath location with
  | none =>
      constructor
      · rintro ⟨aliasDir, halias, _⟩
        cases hstatic.symm.trans halias
      · intro _
        obtain ⟨result, hdone, _⟩ := pass_of_no_static hasks hlocation hhandle hstatic
        exact ⟨result, hdone⟩
  | some aliasDir =>
      obtain ⟨hagain, hserve⟩ :=
        httpHandler_of_static hasks hne hlocation hhandle hstatic rfl
      constructor
      · rintro ⟨aliasDir', halias, hselect⟩
        cases hstatic.symm.trans halias
        rw [handlePass, hagain hselect]
      · intro hnot
        cases hselect : selectFile env
            (aliasDir ++ exchange.request.path.drop location.length) with
        | none => exact absurd ⟨aliasDir, hstatic, hselect⟩ hnot
        | some filePath =>
            obtain ⟨result, hdone, _⟩ := handlePass_done fun exchange' hexchange =>
              serveFile_again ((hserve filePath hselect).symm.trans hexchange)
            exact ⟨result, hdone⟩

end Tried

/-! ## The passes and the scan -/

/-- The locations tried get shorter, they are configured candidates of the path, and they come
in the order of the first scan, with none left out before the request is answered. -/
structure ContinuesScan (env : Environment) (request : HttpRequest) (input : Bytes) : Prop where
  decreasing : (tried env { request, input }).Pairwise fun longer shorter =>
    shorter.length < longer.length
  configured : ∀ location ∈ tried env { request, input },
    location ∈ env.config.locations ∧ IsCandidate request.path location
  inOrder : tried env { request, input } <+: enumerated env.config.locations request.path
  complete : (∀ location ∈ tried env { request, input }, IsExhausted env request.path location) →
    tried env { request, input } = enumerated env.config.locations request.path

/-- The location without its last byte is a location that no slash ends. -/
def Misleads (locations : Finset Bytes) (location : Bytes) : Prop :=
  location.dropLast ∈ locations ∧ location.dropLast ≠ [] ∧
    location.dropLast.getLast? ≠ some slash

/-- No location that misleads is left behind: one that is at least as long is not
exhausted. -/
def KeepsToScan (env : Environment) (path : Bytes) : Prop :=
  ∀ location ∈ enumerated env.config.locations path,
    Misleads env.config.locations location →
      ∃ longer ∈ enumerated env.config.locations path, location.length ≤ longer.length ∧
        ¬ IsExhausted env path longer

section Passes

variable {env : Environment} {exchange : Exchange} {location : Bytes}

theorem take_length_sub_one {path : Bytes} (hbegins : location <+: path) :
    path.take (location.length - 1) = location.dropLast := by
  obtain ⟨rest, rfl⟩ := hbegins
  rw [List.take_append_of_le_length (Nat.sub_le _ _), List.dropLast_eq_take]

theorem aligned_of_not_misleads {locations : Finset Bytes} {path : Bytes}
    (hbegins : location <+: path) (hnot : ¬ Misleads locations location) :
    Aligned locations path (location.length - 1) := by
  rw [Aligned, take_length_sub_one hbegins]
  intro hmem hne
  refine ⟨hne, (List.dropLast_prefix _).trans hbegins, Or.inr ?_⟩
  by_contra hslash
  exact hnot ⟨hmem, hne, hslash⟩

/-- An aligned pass finds the next location of the scan. -/
theorem found_of_aligned (hpath : exchange.request.path ≠ [])
    (haligned : Aligned env.config.locations exchange.request.path
      exchange.request.locationEndPos) :
    found env exchange = (upTo exchange.request.locationEndPos
      (enumerated env.config.locations exchange.request.path)).head? := by
  by_cases hreq : exchange.request.path.take exchange.request.locationEndPos = []
  · have hzero : exchange.request.locationEndPos = 0 :=
      (List.take_eq_nil_iff.mp hreq).resolve_right hpath
    have hnil : upTo exchange.request.locationEndPos
        (enumerated env.config.locations exchange.request.path) = [] := by
      rw [List.eq_nil_iff_forall_not_mem]
      intro location hmem
      obtain ⟨⟨_, hcandidate⟩, hlength⟩ := (mem_upTo_iff hpath).mp hmem
      have hpos := List.length_pos_of_ne_nil hcandidate.1
      omega
    rw [hnil]
    simp only [found, if_pos hreq]
    rfl
  · rw [← searchLocation_of_aligned hpath hreq haligned]
    simp only [found, if_neg hreq]

/-- With the next location of the scan, the locations behind are exhausted further down. -/
theorem exhausted_behind (hpath : exchange.request.path ≠ []) {rest : List Bytes}
    (hupTo : upTo exchange.request.locationEndPos
      (enumerated env.config.locations exchange.request.path) = location :: rest)
    (hexhausted : IsExhausted env exchange.request.path location)
    (hbehind : ∀ longer ∈ enumerated env.config.locations exchange.request.path,
      exchange.request.locationEndPos < longer.length →
        IsExhausted env exchange.request.path longer) :
    ∀ longer ∈ enumerated env.config.locations exchange.request.path,
      location.length - 1 < longer.length → IsExhausted env exchange.request.path longer := by
  intro longer hlonger hlt
  by_cases hle : longer.length ≤ exchange.request.locationEndPos
  · have hmem := (mem_upTo_iff hpath).mpr ⟨(mem_enumerated_iff hpath longer).mp hlonger, hle⟩
    rw [hupTo] at hmem
    rcases List.mem_cons.mp hmem with rfl | hrest
    · exact hexhausted
    · have hshorter := length_lt_of_upTo_cons
        (pairwise_enumerated env.config.locations hpath) hupTo longer hrest
      omega
  · exact hbehind longer hlonger (not_le.mp hle)

/-- While the locations behind are exhausted and none of them has misled the search, the
passes run through the rest of the scan. -/
theorem tried_of_keepsToScan (hasks : AsksForFile exchange.request)
    (hkeeps : KeepsToScan env exchange.request.path)
    (haligned : Aligned env.config.locations exchange.request.path
      exchange.request.locationEndPos)
    (hbehind : ∀ longer ∈ enumerated env.config.locations exchange.request.path,
      exchange.request.locationEndPos < longer.length →
        IsExhausted env exchange.request.path longer) :
    tried env exchange <+: upTo exchange.request.locationEndPos
        (enumerated env.config.locations exchange.request.path) ∧
      ((∀ location ∈ tried env exchange, IsExhausted env exchange.request.path location) →
        tried env exchange = upTo exchange.request.locationEndPos
          (enumerated env.config.locations exchange.request.path)) := by
  induction hbound : exchange.request.locationEndPos using Nat.strong_induction_on
    generalizing exchange with
  | _ bound ih =>
      have hfound := found_of_aligned hasks.2 haligned
      rw [← hbound]
      cases hupTo : upTo exchange.request.locationEndPos
          (enumerated env.config.locations exchange.request.path) with
      | nil =>
          rw [hupTo] at hfound
          rw [tried_of_none hfound]
          exact ⟨List.prefix_rfl, fun _ => rfl⟩
      | cons location rest =>
          rw [hupTo] at hfound
          have hmem : location ∈ upTo exchange.request.locationEndPos
              (enumerated env.config.locations exchange.request.path) := by
            rw [hupTo]
            exact List.mem_cons_self
          obtain ⟨hlisted, hlength⟩ := (mem_upTo_iff hasks.2).mp hmem
          have hdecreasing := pairwise_enumerated env.config.locations hasks.2
          by_cases hexhausted : IsExhausted env exchange.request.path location
          · have hpass := (handlePass_of_found hasks hfound).1 hexhausted
            have hbehind' := exhausted_behind hasks.2 hupTo hexhausted hbehind
            have haligned' : Aligned env.config.locations exchange.request.path
                (location.length - 1) := by
              apply aligned_of_not_misleads hlisted.2.2.1
              intro hmisleads
              obtain ⟨longer, hlonger, hle, hnot⟩ := hkeeps location
                ((mem_enumerated_iff hasks.2 location).mpr hlisted) hmisleads
              have hpos := List.length_pos_of_ne_nil hlisted.2.1
              exact hnot (hbehind' longer hlonger (by omega))
            have hasks' : AsksForFile (exchange.locate location).request := hasks
            have hlater := ih _ (hbound ▸ handlePass_lt hfound hpass) hasks' hkeeps haligned'
              hbehind' rfl
            rw [locate_path, locate_locationEndPos,
              upTo_of_cons hdecreasing hupTo hlisted.2.1] at hlater
            rw [tried_of_next hfound hpass]
            refine ⟨(List.prefix_cons_inj location).mpr hlater.1, fun hall => ?_⟩
            rw [hlater.2 fun other hother => hall other (List.mem_cons_of_mem _ hother)]
          · obtain ⟨result, hpass⟩ := (handlePass_of_found hasks hfound).2 hexhausted
            rw [tried_of_done hfound hpass]
            refine ⟨⟨rest, rfl⟩, fun hall => ?_⟩
            exact absurd (hall location (List.mem_singleton_self _)) hexhausted

/-- After an exhausted location that misleads, the string that is left is tried. -/
theorem dropLast_mem_tried (hasks : AsksForFile exchange.request)
    (hmem : location ∈ tried env exchange)
    (hexhausted : IsExhausted env exchange.request.path location)
    (hmisleads : Misleads env.config.locations location) :
    location.dropLast ∈ tried env exchange := by
  induction hbound : exchange.request.locationEndPos using Nat.strong_induction_on
    generalizing exchange with
  | _ bound ih =>
      cases hfound : found env exchange with
      | none =>
          rw [tried_of_none hfound] at hmem
          cases hmem
      | some matched =>
          obtain ⟨hagain, hends⟩ := handlePass_of_found hasks hfound
          by_cases hmatched : IsExhausted env exchange.request.path matched
          · have hpass := hagain hmatched
            rw [tried_of_next hfound hpass] at hmem ⊢
            apply List.mem_cons_of_mem
            rcases List.mem_cons.mp hmem with rfl | hlater
            · -- the next search is for the string that is left
              have hlocated := found_eq_some_iff.mp hfound
              have hbegins := (length_location_le hlocated).2.2
              have hnext : found env (exchange.locate location) = some location.dropLast := by
                simp only [found, locate_path, locate_locationEndPos,
                  take_length_sub_one hbegins, if_neg hmisleads.2.1]
                exact (searchLocation_self_iff hmisleads.2.1).mpr hmisleads.1
              cases hpass' : handlePass env (exchange.locate location) with
              | next exchange' =>
                  rw [tried_of_next hnext hpass']
                  exact List.mem_cons_self
              | done result =>
                  rw [tried_of_done hnext hpass']
                  exact List.mem_cons_self
            · exact ih _ (hbound ▸ handlePass_lt hfound hpass) hasks hlater hexhausted rfl
          · obtain ⟨result, hpass⟩ := hends hmatched
            rw [tried_of_done hfound hpass, List.mem_singleton] at hmem
            subst hmem
            exact absurd hexhausted hmatched

end Passes

/-- A location is tried when it and those that are longer are exhausted. -/
theorem mem_tried_of_continuesScan {env : Environment} {request : HttpRequest}
    {input location : Bytes} (hpath : request.path ≠ [])
    (hcontinues : ContinuesScan env request input)
    (hlocation : location ∈ enumerated env.config.locations request.path)
    (hbehind : ∀ longer ∈ enumerated env.config.locations request.path,
      location.length ≤ longer.length → IsExhausted env request.path longer) :
    location ∈ tried env { request, input } := by
  by_contra hnot
  obtain ⟨rest, hrest⟩ := hcontinues.inOrder
  have hlater : location ∈ rest := by
    rw [← hrest] at hlocation
    exact (List.mem_append.mp hlocation).resolve_left hnot
  have hall : ∀ earlier ∈ tried env { request, input },
      IsExhausted env request.path earlier := by
    intro earlier hearlier
    have hdecreasing := pairwise_enumerated env.config.locations hpath
    rw [← hrest, List.pairwise_append] at hdecreasing
    have hlonger := hdecreasing.2.2 earlier hearlier location hlater
    apply hbehind earlier _ hlonger.le
    rw [← hrest]
    exact List.mem_append_left _ hearlier
  rw [hcontinues.complete hall] at hnot
  exact hnot hlocation

/-- The passes continue the first scan exactly when no location that is left behind misleads
them. -/
theorem continuesScan_iff {env : Environment} {request : HttpRequest} (input : Bytes)
    (hasks : AsksForFile request) (hpos : request.locationEndPos = request.path.length) :
    ContinuesScan env request input ↔ KeepsToScan env request.path := by
  constructor
  · intro hcontinues location hlocation hmisleads
    by_contra hnone
    have hbehind : ∀ longer ∈ enumerated env.config.locations request.path,
        location.length ≤ longer.length → IsExhausted env request.path longer := by
      intro longer hlonger hle
      by_contra hnot
      exact hnone ⟨longer, hlonger, hle, hnot⟩
    have hmem := mem_tried_of_continuesScan hasks.2 hcontinues hlocation hbehind
    have hleft := @dropLast_mem_tried env { request, input } location hasks hmem
      (hbehind location hlocation le_rfl) hmisleads
    obtain ⟨_, _, _, hwhole | hslash⟩ := hcontinues.configured _ hleft
    · have hcandidate := (mem_enumerated_iff hasks.2 location).mp hlocation
      have hle := hcandidate.2.2.1.length_le
      have hpos := List.length_pos_of_ne_nil hcandidate.2.1
      have hlength := congrArg List.length hwhole
      rw [List.length_dropLast] at hlength
      omega
    · exact hmisleads.2.2 hslash
  · intro hkeeps
    have haligned : Aligned env.config.locations request.path request.locationEndPos := by
      rw [Aligned, hpos, List.take_length]
      intro _ hne
      exact ⟨hne, List.prefix_rfl, Or.inl rfl⟩
    have hshort : ∀ location ∈ enumerated env.config.locations request.path,
        location.length ≤ request.locationEndPos := by
      intro location hlocation
      rw [hpos]
      exact ((mem_enumerated_iff hasks.2 location).mp hlocation).2.2.1.length_le
    have hwhole : upTo request.locationEndPos (enumerated env.config.locations request.path) =
        enumerated env.config.locations request.path :=
      List.filter_eq_self.mpr fun location hlocation => by
        simpa using hshort location hlocation
    obtain ⟨hinOrder, hcomplete⟩ :=
      @tried_of_keepsToScan env { request, input } hasks hkeeps haligned
        fun longer hlonger hlt => absurd (hshort longer hlonger) (not_le.mpr hlt)
    rw [hwhole] at hinOrder hcomplete
    refine ⟨?_, ?_, hinOrder, hcomplete⟩
    · exact (pairwise_enumerated env.config.locations hasks.2).sublist hinOrder.sublist
    · intro location hlocation
      exact (mem_enumerated_iff hasks.2 location).mp (hinOrder.subset hlocation)

def rootEnv : Environment where
  config := ServerConfig.addStatic {} { location := ascii "/", aliasDir := ascii "/www/" }

theorem continuesScan_of_root : ContinuesScan rootEnv abRequest [] := by
  apply (continuesScan_iff [] ⟨Or.inl rfl, by decide⟩ rfl).mpr
  intro location hlocation hmisleads
  have hmem := ((mem_enumerated_iff (by decide) location).mp hlocation).1
  have hroot : location = ascii "/" := by
    simpa [rootEnv, ServerConfig.addStatic] using hmem
  subst hroot
  exact absurd rfl hmisleads.2.1

/-- Neither location has a file, and the second one is tried although it is no part of the
scan of the path. -/
theorem second_location_is_no_candidate :
    ¬ ContinuesScan { config := twoStatics } abRequest [] := by
  intro hcontinues
  have hfound : found { config := twoStatics } { request := abRequest, input := [] } =
      some (ascii "/ab") := by decide
  have hpass : handlePass { config := twoStatics } { request := abRequest, input := [] } =
      .next (Exchange.locate { request := abRequest, input := [] } (ascii "/ab")) := rfl
  have htried : ascii "/a" ∈ tried { config := twoStatics }
      { request := abRequest, input := [] } := by
    have hdropped := @dropLast_mem_tried { config := twoStatics }
      { request := abRequest, input := [] } (ascii "/ab") ⟨Or.inl rfl, by decide⟩
      (by rw [tried_of_next hfound hpass]; exact List.mem_cons_self)
      ⟨ascii "/x", rfl, by decide⟩ (by unfold Misleads; decide)
    exact hdropped
  obtain ⟨_, _, _, hwhole | hslash⟩ := hcontinues.configured _ htried
  · exact absurd hwhole (by decide)
  · exact absurd hslash (by decide)

end Cuber.Retries
