import Cuber.Http.Server

/-!
# The search for a static file

The retry loop of `onRequest` and the index loop of `HttpStaticHandler`
together try one path name after the other until one of them is a regular
file.  `attempts` lists these names in their order; it depends on the
configuration and the request path only.  The file system enters when the
first name that is a file is picked from the list.
-/

namespace Cuber.StaticSearch

open Cuber.Config
open Cuber.Execution
open Cuber.FileUtil
open Cuber.Handlers
open Cuber.LocationSearch
open Cuber.Loop
open Cuber.Request
open Cuber.Response
open Cuber.Server
open Cuber.Text

/-! ## Names tried for one location -/

/-- The names built by the index loop, each from the one before. -/
def indexPaths (fileDir : Bytes) : List Bytes → List Bytes
  | [] => []
  | index :: indexes => (fileDir ++ index) :: indexPaths (fileDir ++ index) indexes

/-- The names that `HttpStaticHandler` tries for a target. -/
def targetPaths (indexes : List Bytes) (fileDir : Bytes) : List Bytes :=
  fileDir :: if fileDir.getLast? = some slash then indexPaths fileDir indexes else []

theorem findIndex_eq_find (files : FileSystem) (fileDir : Bytes)
    (indexes : List Bytes) :
    findIndex files fileDir indexes =
      (indexPaths fileDir indexes).find? (isfile files) := by
  induction indexes generalizing fileDir with
  | nil => rfl
  | cons index indexes ih =>
      rw [findIndex, indexPaths, List.find?_cons]
      cases hfile : isfile files (fileDir ++ index) <;> simp [ih]

theorem selectFile_eq_find (env : Environment) (fileDir : Bytes) :
    selectFile env fileDir =
      (targetPaths (env.config.indexFiles env.listenPort) fileDir).find?
        (isfile env.files) := by
  rw [selectFile, targetPaths, List.find?_cons]
  cases hfile : isfile env.files fileDir with
  | true => simp
  | false =>
      by_cases hslash : fileDir.getLast? = some slash <;>
        simp [hslash, findIndex_eq_find]

theorem exists_tail_of_mem_indexPaths {fileDir filePath : Bytes}
    {indexes : List Bytes} (hmem : filePath ∈ indexPaths fileDir indexes) :
    ∃ tail, filePath = fileDir ++ tail := by
  induction indexes generalizing fileDir with
  | nil => simp [indexPaths] at hmem
  | cons index indexes ih =>
      rcases List.mem_cons.mp hmem with rfl | hmem
      · exact ⟨index, rfl⟩
      · obtain ⟨tail, rfl⟩ := ih hmem
        exact ⟨index ++ tail, List.append_assoc _ _ _⟩

theorem exists_tail_of_mem_targetPaths {fileDir filePath : Bytes}
    {indexes : List Bytes} (hmem : filePath ∈ targetPaths indexes fileDir) :
    ∃ tail, filePath = fileDir ++ tail := by
  rcases List.mem_cons.mp hmem with rfl | hmem
  · exact ⟨[], by simp⟩
  · split_ifs at hmem
    · exact exists_tail_of_mem_indexPaths hmem
    · simp at hmem

/-! ## Names tried for all locations -/

section Attempts

variable (config : ServerConfig) (listenPort : Port) (path : Bytes)

theorem length_sub_one_lt {pos : ℕ} {location : Bytes}
    (hne : path.take pos ≠ [])
    (hsearch : searchLocation config.locations (path.take pos) = some location) :
    location.length - 1 < pos := by
  have hspec := searchLocation_spec config.locations hne
  rw [hsearch] at hspec
  have hpos := List.length_pos_of_ne_nil hspec.2.1.1
  have hle := hspec.2.1.2.1.length_le
  rw [List.length_take] at hle
  omega

/-- The locations matched from a position in the path downwards, as long as
they are static ones, each with the names tried for it. -/
def attempts (pos : ℕ) : List (Bytes × Bytes) :=
  if hne : path.take pos = [] then []
  else
    match hsearch : searchLocation config.locations (path.take pos) with
    | none => []
    | some location =>
        match config.staticPath location with
        | none => []
        | some aliasDir =>
            have _hshorter : location.length - 1 < pos :=
              length_sub_one_lt config path hne hsearch
            (targetPaths (config.indexFiles listenPort)
                (aliasDir ++ path.drop location.length)).map (location, ·) ++
              attempts (location.length - 1)
termination_by pos

variable {config listenPort path} {pos : ℕ}

theorem attempts_of_take_nil (hne : path.take pos = []) :
    attempts config listenPort path pos = [] := by
  rw [attempts, dif_pos hne]

theorem attempts_of_no_location (hne : path.take pos ≠ [])
    (hsearch : searchLocation config.locations (path.take pos) = none) :
    attempts config listenPort path pos = [] := by
  rw [attempts, dif_neg hne]
  split
  · rfl
  · rename_i location hlocation
    simp [hlocation] at hsearch

/-- The names tried for a location, and those for the shorter ones. -/
theorem attempts_of_location (hne : path.take pos ≠ []) {location : Bytes}
    (hsearch : searchLocation config.locations (path.take pos) = some location) :
    attempts config listenPort path pos =
      match config.staticPath location with
      | none => []
      | some aliasDir =>
          (targetPaths (config.indexFiles listenPort)
              (aliasDir ++ path.drop location.length)).map (location, ·) ++
            attempts config listenPort path (location.length - 1) := by
  rw [attempts, dif_neg hne]
  split
  · rename_i hlocation
    simp [hlocation] at hsearch
  · rename_i other hlocation
    obtain rfl : other = location := Option.some.inj (hlocation.symm.trans hsearch)
    rfl

/-- Every name tried for a location starts with its alias. -/
theorem exists_tail_of_mem_attempts {location filePath : Bytes}
    (hmem : (location, filePath) ∈ attempts config listenPort path pos) :
    ∃ aliasDir tail, config.staticPath location = some aliasDir ∧
      filePath = aliasDir ++ tail := by
  induction pos using Nat.strong_induction_on with
  | _ pos ih =>
      by_cases hne : path.take pos = []
      · simp [attempts_of_take_nil hne] at hmem
      cases hsearch : searchLocation config.locations (path.take pos) with
      | none => simp [attempts_of_no_location hne hsearch] at hmem
      | some matched =>
          rw [attempts_of_location hne hsearch] at hmem
          cases hstatic : config.staticPath matched with
          | none => simp [hstatic] at hmem
          | some aliasDir =>
              rw [hstatic] at hmem
              rcases List.mem_append.mp hmem with hhere | hlater
              · obtain ⟨name, hname, heq⟩ := List.mem_map.mp hhere
                cases heq
                obtain ⟨tail, rfl⟩ := exists_tail_of_mem_targetPaths hname
                exact ⟨aliasDir, _, hstatic, List.append_assoc _ _ _⟩
              · exact ih _ (length_sub_one_lt config path hne hsearch) hlater

/-- The locations get shorter. -/
theorem length_le_of_mem_attempts {location filePath : Bytes}
    (hmem : (location, filePath) ∈ attempts config listenPort path pos) :
    location.length ≤ pos := by
  induction pos using Nat.strong_induction_on with
  | _ pos ih =>
      by_cases hne : path.take pos = []
      · simp [attempts_of_take_nil hne] at hmem
      cases hsearch : searchLocation config.locations (path.take pos) with
      | none => simp [attempts_of_no_location hne hsearch] at hmem
      | some matched =>
          have hshorter := length_sub_one_lt config path hne hsearch
          rw [attempts_of_location hne hsearch] at hmem
          cases hstatic : config.staticPath matched with
          | none => simp [hstatic] at hmem
          | some aliasDir =>
              rw [hstatic] at hmem
              rcases List.mem_append.mp hmem with hhere | hlater
              · obtain ⟨name, _, heq⟩ := List.mem_map.mp hhere
                cases heq
                omega
              · exact (ih _ hshorter hlater).trans hshorter.le

end Attempts

/-! ## The search in a file system -/

section Search

variable {env : Environment} {exchange : Exchange}

def AsksForFile (request : HttpRequest) : Prop :=
  (request.method = .kGet ∨ request.method = .kHead) ∧ request.path ≠ []

/-- The names still to be tried for an exchange. -/
def remaining (env : Environment) (exchange : Exchange) : List (Bytes × Bytes) :=
  attempts env.config env.listenPort exchange.request.path
    exchange.request.locationEndPos

def isFileAt (env : Environment) (attempt : Bytes × Bytes) : Bool :=
  isfile env.files attempt.2

def ServesNothing (exchange : Exchange) (result : Exec Fault (Bool × Exchange)) : Prop :=
  ∀ forwarded final, result = .ret (forwarded, final) →
    ∀ location filePath, Decision.served location filePath ∈ final.log →
      Decision.served location filePath ∈ exchange.log

theorem servesNothing_setStatusCode (exchange : Exchange) (code : ℤ) :
    ServesNothing exchange (.ret (false, exchange.setStatusCode code)) := by
  rintro forwarded final hfinal location filePath hserved
  cases hfinal
  exact hserved

/-- The location that the search finds is passed on to the static handler. -/
theorem httpHandler_of_search {location : Bytes}
    (hpath : exchange.request.path ≠ [])
    (hreq : exchange.request.path.take exchange.request.locationEndPos ≠ [])
    (hsearch : searchLocation env.config.locations
      (exchange.request.path.take exchange.request.locationEndPos) = some location) :
    location ≠ [] ∧ location <+: exchange.request.path ∧
      (exchange.locate location).location = location ∧
      httpHandler env exchange =
        HttpStaticHandler.handle env (bodyAndProxy env) (exchange.locate location) := by
  have hspec := searchLocation_spec env.config.locations hreq
  rw [hsearch] at hspec
  obtain ⟨_, ⟨hne, hbegins, _⟩, _⟩ := hspec
  have hbegins' := hbegins.trans (List.take_prefix _ _)
  refine ⟨hne, hbegins', location_locate hne hbegins', ?_⟩
  simp [httpHandler, HttpAccessHandler.handle, hpath, hreq, hsearch]

/-- Without a static directory a pass serves no file. -/
theorem pass_of_no_static {location : Bytes}
    (hasks : AsksForFile exchange.request)
    (hlocation : (exchange.locate location).location = location)
    (hhandle : httpHandler env exchange =
      HttpStaticHandler.handle env (bodyAndProxy env) (exchange.locate location))
    (hstatic : env.config.staticPath location = none) :
    ∃ result, handlePass env exchange = .done result ∧
      ServesNothing exchange result := by
  have hproxy : httpHandler env exchange =
      HttpProxyHandler.handle env HttpDefaultHandler.handle
        (exchange.locate location) := by
    rw [hhandle]
    rcases hasks.1 with hmethod | hmethod <;>
      simp [HttpStaticHandler.handle, bodyAndProxy, HttpPostReadHandler.handle,
        hlocation, hstatic, hmethod]
  rcases proxyHandler_cases env (exchange.locate location) with
    ⟨upstream, request, hresult⟩ | hresult | hresult
  · refine ⟨_, by rw [handlePass, hproxy, hresult], ?_⟩
    rintro forwarded final hfinal other filePath hserved
    cases hfinal
    simpa [Exchange.locate] using hserved
  · refine ⟨_, by rw [handlePass, hproxy, hresult], ?_⟩
    rintro forwarded final hfinal other filePath hserved
    cases hfinal
    simpa [Exchange.locate, Exchange.setStatusCode] using hserved
  · refine ⟨_, by rw [handlePass, hproxy, hresult], ?_⟩
    rintro forwarded final hfinal
    cases hfinal

/-- A static location has the request tried again when none of its names is a
file, and otherwise serves the first of them that is. -/
theorem httpHandler_of_static {location aliasDir : Bytes}
    (hasks : AsksForFile exchange.request) (hne : location ≠ [])
    (hlocation : (exchange.locate location).location = location)
    (hhandle : httpHandler env exchange =
      HttpStaticHandler.handle env (bodyAndProxy env) (exchange.locate location))
    (hstatic : env.config.staticPath location = some aliasDir) {fileDir : Bytes}
    (hdir : fileDir = aliasDir ++ exchange.request.path.drop location.length) :
    (selectFile env fileDir = none →
        httpHandler env exchange = .ret (.kHandleAgain, exchange.locate location)) ∧
      ∀ filePath, selectFile env fileDir = some filePath →
        httpHandler env exchange =
          serveFile env fileDir filePath (exchange.locate location) := by
  have hpos := List.length_pos_of_ne_nil hne
  subst hdir
  rw [hhandle]
  constructor
  · intro hselect
    rcases hasks.1 with hmethod | hmethod <;>
      simp [HttpStaticHandler.handle, hlocation, hstatic, hmethod,
        Nat.sub_add_cancel hpos, hselect]
  · intro filePath hselect
    rcases hasks.1 with hmethod | hmethod <;>
      simp [HttpStaticHandler.handle, hlocation, hstatic, hmethod,
        Nat.sub_add_cancel hpos, hselect]

/-- The first file among the remaining attempts is the one selected for the
location at hand, or else the first one for the shorter locations. -/
theorem find_remaining_of_static {location aliasDir : Bytes}
    (hreq : exchange.request.path.take exchange.request.locationEndPos ≠ [])
    (hsearch : searchLocation env.config.locations
      (exchange.request.path.take exchange.request.locationEndPos) = some location)
    (hstatic : env.config.staticPath location = some aliasDir) :
    (remaining env exchange).find? (isFileAt env) =
      ((selectFile env (aliasDir ++ exchange.request.path.drop
        location.length)).map (location, ·)).or
          ((remaining env (exchange.locate location)).find? (isFileAt env)) := by
  have hremaining : remaining env exchange = _ := attempts_of_location hreq hsearch
  rw [hstatic] at hremaining
  rw [selectFile_eq_find, hremaining, List.find?_append, List.find?_map]
  rfl

/-- What a pass does with a request for a file: answer or forward without
serving one, go on with a shorter location, or serve the first name that is a
file. -/
theorem pass_cases (env : Environment) (hasks : AsksForFile exchange.request) :
    (∃ result, handlePass env exchange = .done result ∧
        ServesNothing exchange result ∧ remaining env exchange = []) ∨
      (∃ location, handlePass env exchange = .next (exchange.locate location) ∧
        location.length - 1 < exchange.request.locationEndPos ∧
        (remaining env exchange).find? (isFileAt env) =
          (remaining env (exchange.locate location)).find? (isFileAt env)) ∨
      ∃ location fileDir filePath,
        (remaining env exchange).find? (isFileAt env) = some (location, filePath) ∧
        (exchange.locate location).location = location ∧
        httpHandler env exchange =
          serveFile env fileDir filePath (exchange.locate location) := by
  have hpath := hasks.2
  by_cases hreq : exchange.request.path.take exchange.request.locationEndPos = []
  · refine Or.inl ⟨_, ?_, servesNothing_setStatusCode exchange k404NotFound,
      attempts_of_take_nil hreq⟩
    simp [handlePass, httpHandler, HttpAccessHandler.handle, hpath, hreq]
  cases hsearch : searchLocation env.config.locations
      (exchange.request.path.take exchange.request.locationEndPos) with
  | none =>
      refine Or.inl ⟨_, ?_, servesNothing_setStatusCode exchange k404NotFound,
        attempts_of_no_location hreq hsearch⟩
      simp [handlePass, httpHandler, HttpAccessHandler.handle, hpath, hreq, hsearch]
  | some location =>
      obtain ⟨hne, _, hlocation, hhandle⟩ := httpHandler_of_search hpath hreq hsearch
      cases hstatic : env.config.staticPath location with
      | none =>
          obtain ⟨result, hdone, hnothing⟩ :=
            pass_of_no_static hasks hlocation hhandle hstatic
          have hremaining : remaining env exchange = _ :=
            attempts_of_location hreq hsearch
          rw [hstatic] at hremaining
          exact Or.inl ⟨result, hdone, hnothing, hremaining⟩
      | some aliasDir =>
          obtain ⟨hagain, hserve⟩ :=
            httpHandler_of_static hasks hne hlocation hhandle hstatic rfl
          have hfind := find_remaining_of_static hreq hsearch hstatic
          cases hselect : selectFile env
              (aliasDir ++ exchange.request.path.drop location.length) with
          | none =>
              rw [hselect] at hfind
              refine Or.inr (Or.inl ⟨location, ?_,
                length_sub_one_lt _ _ hreq hsearch, hfind⟩)
              rw [handlePass, hagain hselect]
          | some filePath =>
              rw [hselect] at hfind
              exact Or.inr (Or.inr ⟨location, _, filePath, hfind, hlocation,
                hserve filePath hselect⟩)

/-- At most the file that was selected is logged as served. -/
theorem serveFile_log {fileDir filePath : Bytes} {located final : Exchange}
    {state : HttpHandleState}
    (hserve : serveFile env fileDir filePath located = .ret (state, final)) :
    final.log = located.log ∨
      final.log = located.log ++ [.served located.location filePath] := by
  simp only [serveFile] at hserve
  split_ifs at hserve
  · cases hserve
    exact Or.inr rfl
  · split at hserve
    · cases hserve
      exact Or.inl rfl
    · split at hserve
      · cases hserve
        exact Or.inl rfl
      · cases hserve
        exact Or.inr rfl
      · cases hserve

/-- A file is served only if its name is the first one tried that is a file. -/
theorem served_first (hasks : AsksForFile exchange.request) {forwarded : Bool}
    {final : Exchange}
    (hreturns : Returns (handlePass env) exchange (.ret (forwarded, final)))
    {location filePath : Bytes}
    (hserved : Decision.served location filePath ∈ final.log) :
    Decision.served location filePath ∈ exchange.log ∨
      (remaining env exchange).find? (isFileAt env) = some (location, filePath) := by
  induction hbound : exchange.request.locationEndPos using Nat.strong_induction_on
    generalizing exchange with
  | _ bound ih =>
      rcases pass_cases env hasks with ⟨result, hdone, hnothing, _⟩ |
        ⟨matched, hnext, hshorter, hfind⟩ |
        ⟨matched, fileDir, tried, hfind, hmatched, hhandle⟩
      · have hresult := (returns_of_done hdone).unique hreturns
        exact Or.inl (hnothing forwarded final hresult location filePath hserved)
      · rw [hbound] at hshorter
        have hreturns' := (returns_iff_of_next hnext).mp hreturns
        have hasks' : AsksForFile (exchange.locate matched).request := hasks
        rcases ih _ hshorter hasks' hreturns' rfl with hlog | hlater
        · exact Or.inl (by simpa [Exchange.locate] using hlog)
        · exact Or.inr (hfind.trans hlater)
      · obtain ⟨result, hdone, hanswer⟩ := handlePass_done fun exchange' hagain =>
          serveFile_again (hhandle.symm.trans hagain)
        have hresult := (returns_of_done hdone).unique hreturns
        obtain ⟨state, hstate⟩ := hanswer forwarded final hresult
        rcases serveFile_log (hhandle.symm.trans hstate) with hsame | hnew
        · rw [hsame] at hserved
          exact Or.inl (by simpa [Exchange.locate] using hserved)
        · rw [hnew, hmatched] at hserved
          rcases List.mem_append.mp hserved with hold | hnow
          · exact Or.inl (by simpa [Exchange.locate] using hold)
          · cases List.mem_singleton.mp hnow
            exact Or.inr hfind

end Search

/-! ## A file system with a single file -/

/-- An environment in which exactly one path name leads to a file, which can be
read and is not empty. -/
def soleFile (config : ServerConfig) (listenPort : Port) (name : Bytes) :
    Environment where
  config := config
  listenPort := listenPort
  files := fun path => if path = name then some (.regular [NUL] true) else none
  uninitialised := 1

section SoleFile

variable {config : ServerConfig} {listenPort : Port} {name : Bytes}

theorem isfile_soleFile (path : Bytes) :
    isfile (soleFile config listenPort name).files path = true ↔ cStr path = name := by
  by_cases hname : cStr path = name <;> simp [isfile, soleFile, hname]

theorem statSize_soleFile (path : Bytes) :
    statSize (soleFile config listenPort name).files
      (soleFile config listenPort name).uninitialised path = 1 := by
  by_cases hname : cStr path = name <;> simp [statSize, soleFile, hname]

theorem serveFile_soleFile {filePath : Bytes} (hname : cStr filePath = name)
    (fileDir : Bytes) (located : Exchange) :
    ∃ final, Decision.served located.location filePath ∈ final.log ∧
      serveFile (soleFile config listenPort name) fileDir filePath located =
        .ret (.kHandleDone, final) := by
  have hopen : openFile (soleFile config listenPort name).files filePath =
      some [NUL] := by
    simp [openFile, soleFile, hname]
  by_cases hhead : located.request.method = .kHead
  · simp only [serveFile, if_pos hhead]
    exact ⟨_, by simp [Exchange.record], rfl⟩
  · simp only [serveFile, if_neg hhead, hopen, statSize_soleFile]
    exact ⟨_, by simp [Exchange.record], rfl⟩

/-- The first name tried that leads to the file is served. -/
theorem soleFile_serves {exchange : Exchange}
    (hasks : AsksForFile exchange.request) {location filePath : Bytes}
    (hfind : (remaining (soleFile config listenPort name) exchange).find?
      (isFileAt (soleFile config listenPort name)) = some (location, filePath)) :
    ∃ final, Decision.served location filePath ∈ final.log ∧
      Returns (handlePass (soleFile config listenPort name)) exchange
        (.ret (false, final)) := by
  induction hbound : exchange.request.locationEndPos using Nat.strong_induction_on
    generalizing exchange with
  | _ bound ih =>
      rcases pass_cases (soleFile config listenPort name) hasks with
        ⟨result, hdone, hnothing, hempty⟩ |
        ⟨matched, hnext, hshorter, hlater⟩ |
        ⟨matched, fileDir, tried, hfirst, hmatched, hhandle⟩
      · simp [hempty] at hfind
      · rw [hbound] at hshorter
        have hasks' : AsksForFile (exchange.locate matched).request := hasks
        obtain ⟨final, hserved, hreturns⟩ :=
          ih _ hshorter hasks' (hlater.symm.trans hfind) rfl
        exact ⟨final, hserved, (returns_iff_of_next hnext).mpr hreturns⟩
      · cases hfirst.symm.trans hfind
        have hfile := List.find?_some hfind
        obtain ⟨final, hserved, hserve⟩ :=
          serveFile_soleFile ((isfile_soleFile filePath).mp hfile) fileDir
            (exchange.locate location)
        rw [hmatched] at hserved
        refine ⟨final, hserved, returns_of_done ?_⟩
        rw [handlePass, hhandle, hserve]

end SoleFile

end Cuber.StaticSearch
