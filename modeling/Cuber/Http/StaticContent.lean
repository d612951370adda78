import Cuber.Http.StaticSearch

/-!
# What is served for a path

For a target that is no file itself, `HttpStaticHandler` looks for an index
file.  The index loop appends each name to the string that the names before
have been appended to, and the size that is mapped is the one of the target.
This module says for which names and sizes the file that is meant is the one
that is found, and its content the one that is sent.
-/

namespace Cuber.StaticContent

open Cuber.Config
open Cuber.Execution
open Cuber.FileUtil
open Cuber.Handlers
open Cuber.Request
open Cuber.Response
open Cuber.StaticSearch
open Cuber.Text

/-- A GET or HEAD request whose location is static, with the string made of the
alias and the rest of the path. -/
structure HasTarget (env : Environment) (exchange : Exchange) (target : Bytes) : Prop where
  method : exchange.request.method = .kGet ∨ exchange.request.method = .kHead
  isTarget : ∃ aliasDir, env.config.staticPath exchange.location = some aliasDir ∧
    target = aliasDir ++ exchange.request.path.drop (exchange.request.locationEndPos + 1)

section Targets

variable {env : Environment} {exchange : Exchange} {target : Bytes}

/-- The static handler answers with the file that is selected, or has the chain tried again. -/
theorem handle_of_hasTarget (htarget : HasTarget env exchange target) (next : Handler) :
    (selectFile env target = none →
        HttpStaticHandler.handle env next exchange = .ret (.kHandleAgain, exchange)) ∧
      ∀ filePath, selectFile env target = some filePath →
        HttpStaticHandler.handle env next exchange =
          serveFile env target filePath exchange := by
  obtain ⟨aliasDir, halias, rfl⟩ := htarget.isTarget
  have hmethod : ¬ (exchange.request.method ≠ .kGet ∧ exchange.request.method ≠ .kHead) := by
    rcases htarget.method with hget | hhead
    · simp [hget]
    · simp [hhead]
  rw [HttpStaticHandler.handle, if_neg hmethod, halias]
  constructor
  · intro hselect
    simp [hselect]
  · intro filePath hselect
    simp [hselect]

theorem handle_again_iff (htarget : HasTarget env exchange target) (next : Handler) :
    (∃ exchange', HttpStaticHandler.handle env next exchange =
        .ret (.kHandleAgain, exchange')) ↔ selectFile env target = none := by
  obtain ⟨hagain, hserve⟩ := handle_of_hasTarget htarget next
  constructor
  · rintro ⟨exchange', hhandle⟩
    cases hselect : selectFile env target with
    | none => rfl
    | some filePath =>
        rw [hserve filePath hselect] at hhandle
        exact (serveFile_again hhandle).elim
  · intro hselect
    exact ⟨exchange, hagain hselect⟩

end Targets

/-! ## The choice of an index file -/

/-- The target followed by the first name for which this is a file. -/
def firstIndex (files : FileSystem) (target : Bytes) (names : List Bytes) : Option Bytes :=
  (names.find? fun name => isfile files (target ++ name)).map (target ++ ·)

/-- The first index file is selected, and the request is tried again exactly when
there is none. -/
def SelectsFirstIndex (env : Environment) (next : Handler) (exchange : Exchange)
    (target : Bytes) : Prop :=
  selectFile env target =
      firstIndex env.files target (env.config.indexFiles env.listenPort) ∧
    ((∃ exchange', HttpStaticHandler.handle env next exchange =
        .ret (.kHandleAgain, exchange')) ↔
      firstIndex env.files target (env.config.indexFiles env.listenPort) = none)

/-- Whether names are found where they are, after others have been passed over.
A name that is a file is found only while nothing has been appended.  Should the
appended names make up a file before, then it must be the file of a later
name. -/
def IndexesFit (files : FileSystem) (target : Bytes) : Bytes → List Bytes → Prop
  | _, [] => True
  | passed, name :: names =>
      if isfile files (target ++ name) then passed = []
      else if isfile files (target ++ (passed ++ name)) then
        names.find? (fun name => isfile files (target ++ name)) = some (passed ++ name)
      else IndexesFit files target (passed ++ name) names

instance decidableIndexesFit (files : FileSystem) (target : Bytes) :
    (passed : Bytes) → (names : List Bytes) →
      Decidable (IndexesFit files target passed names)
  | _, [] => inferInstanceAs (Decidable True)
  | passed, name :: names =>
      have := decidableIndexesFit files target (passed ++ name) names
      inferInstanceAs (Decidable
        (if isfile files (target ++ name) then passed = []
        else if isfile files (target ++ (passed ++ name)) then
          names.find? (fun name => isfile files (target ++ name)) = some (passed ++ name)
        else IndexesFit files target (passed ++ name) names))

section Indexes

variable {files : FileSystem} {target : Bytes}

/-- The index loop only ever makes the string longer. -/
theorem length_le_of_findIndex {fileDir filePath : Bytes} {names : List Bytes}
    (hfind : findIndex files fileDir names = some filePath) :
    fileDir.length ≤ filePath.length := by
  rw [findIndex_eq_find] at hfind
  obtain ⟨tail, rfl⟩ := exists_tail_of_mem_indexPaths (List.mem_of_find?_eq_some hfind)
  simp

/-- The index loop finds the first index file just if the names passed over do not matter. -/
theorem findIndex_eq_firstIndex_iff (passed : Bytes) (names : List Bytes) :
    findIndex files (target ++ passed) names = firstIndex files target names ↔
      IndexesFit files target passed names := by
  induction names generalizing passed with
  | nil => simp [findIndex, firstIndex, IndexesFit]
  | cons name names ih =>
      rw [IndexesFit, findIndex, firstIndex, List.append_assoc]
      cases hname : isfile files (target ++ name) with
      | true =>
        rw [if_pos rfl, List.find?_cons, hname, Option.map_some]
        constructor
        · intro hfound
          by_contra hpassed
          have hpos := List.length_pos_of_ne_nil hpassed
          have hlength : (target ++ (passed ++ name)).length ≤ (target ++ name).length := by
            split_ifs at hfound with happended
            · rw [Option.some.inj hfound]
            · exact length_le_of_findIndex hfound
          simp only [List.length_append] at hlength
          omega
        · rintro rfl
          rw [List.nil_append, if_pos hname]
      | false =>
        rw [if_neg Bool.false_ne_true, List.find?_cons, hname]
        by_cases happended : isfile files (target ++ (passed ++ name)) = true
        · rw [if_pos happended, if_pos happended]
          cases names.find? fun name => isfile files (target ++ name) with
          | none => simp
          | some later => simp [eq_comm]
        · rw [if_neg happended, if_neg happended]
          exact ih (passed ++ name)

end Indexes

/-- The index loop finds what it is meant to find exactly when the names that are
passed over do not get in the way. -/
theorem selectsFirstIndex_iff {env : Environment} {exchange : Exchange} {target : Bytes}
    (next : Handler) (htarget : HasTarget env exchange target)
    (hfile : isfile env.files target = false) (hslash : target.getLast? = some slash) :
    SelectsFirstIndex env next exchange target ↔
      IndexesFit env.files target [] (env.config.indexFiles env.listenPort) := by
  have hselect : selectFile env target =
      findIndex env.files target (env.config.indexFiles env.listenPort) := by
    simp [selectFile, hfile, hslash]
  rw [SelectsFirstIndex, handle_again_iff htarget next, hselect,
    ← findIndex_eq_firstIndex_iff, List.append_nil]
  refine and_iff_left_of_imp fun hsame => ?_
  rw [hsame]

/-- A server with one static directory and a list of index files. -/
def indexConfig (names : List Bytes) : ServerConfig :=
  (ServerConfig.addStatic {}
    { location := ascii "/", aliasDir := ascii "/www/" }).addServer
      { listenPort := httpPort, workers := 0, rootPath := [], indexFiles := names,
        proxyLocations := [], staticLocations := [ascii "/"] }

def indexFiles (name content : Bytes) : FileSystem := fun path =>
  if path = ascii "/www/" then some (.directory 60)
  else if path = ascii "/www/" ++ name then some (.regular content true)
  else none

def indexEnv (names : List Bytes) (name content : Bytes) : Environment where
  config := indexConfig names
  files := indexFiles name content

def rootRequest : Exchange where
  request := { method := .kGet, version := .kHttp11, path := ascii "/" }
  input := []

theorem hasTarget_rootRequest (names : List Bytes) (name content : Bytes) :
    HasTarget (indexEnv names name content) rootRequest (ascii "/www/") where
  method := Or.inl rfl
  isTarget := ⟨ascii "/www/", rfl, rfl⟩

theorem selectsFirstIndex_of_one_name :
    SelectsFirstIndex (indexEnv [ascii "index.html"] (ascii "index.html") (ascii "hi"))
      HttpDefaultHandler.handle rootRequest (ascii "/www/") :=
  (selectsFirstIndex_iff _ (hasTarget_rootRequest _ _ _) (by decide) (by decide)).mpr
    (by decide)

/-- The second of two names is not found although the file is there. -/
theorem second_name_not_selected :
    HasTarget (indexEnv [ascii "index.html", ascii "index.htm"] (ascii "index.htm")
        (ascii "hi")) rootRequest (ascii "/www/") ∧
      isfile (indexFiles (ascii "index.htm") (ascii "hi")) (ascii "/www/index.htm") = true ∧
      ¬ SelectsFirstIndex (indexEnv [ascii "index.html", ascii "index.htm"]
        (ascii "index.htm") (ascii "hi")) HttpDefaultHandler.handle rootRequest
          (ascii "/www/") := by
  refine ⟨hasTarget_rootRequest _ _ _, by decide, fun hselects => ?_⟩
  have hnone : selectFile (indexEnv [ascii "index.html", ascii "index.htm"]
      (ascii "index.htm") (ascii "hi")) (ascii "/www/") = none := by decide
  have hsome : firstIndex (indexFiles (ascii "index.htm") (ascii "hi")) (ascii "/www/")
      [ascii "index.html", ascii "index.htm"] = some (ascii "/www/index.htm") := by decide
  have hsame := hselects.1
  rw [hnone] at hsame
  exact Option.some_ne_none _ (hsome.symm.trans hsame.symm)

/-! ## The content that is sent -/

/-- Every answer 200 to a request for a target has the content of the file that
was opened. -/
def SendsContent (env : Environment) (next : Handler) (exchange : Exchange)
    (target : Bytes) : Prop :=
  ∀ filePath content state final, selectFile env target = some filePath →
    openFile env.files filePath = some content →
    HttpStaticHandler.handle env next exchange = .ret (state, final) →
    final.response.statusCode = k200Ok → final.response.body = content

/-- The size of the target is the one of the first file among the names tried for
it, or it is one that cannot be mapped. -/
def SizeFits (env : Environment) (target : Bytes) : Prop :=
  ∀ filePath content,
    (targetPaths (env.config.indexFiles env.listenPort) target).find? (isfile env.files) =
      some filePath → openFile env.files filePath = some content →
    statSize env.files env.uninitialised target = content.length ∨
      statSize env.files env.uninitialised target = 0 ∨
      (content.length + pageSize - 1) / pageSize * pageSize <
        statSize env.files env.uninitialised target

section Content

variable {content : Bytes} {size : ℕ}

theorem mmapCopy_eq_content_iff {body : Bytes} (hcopy : mmapCopy content size = .bytes body) :
    body = content ↔ size = content.length := by
  rw [mmapCopy] at hcopy
  split_ifs at hcopy
  cases hcopy
  constructor
  · intro hsame
    have hlength := congrArg List.length hsame
    rw [List.length_append, List.length_take, List.length_replicate] at hlength
    omega
  · rintro rfl
    simp

theorem exists_mmapCopy_iff :
    (∃ body, mmapCopy content size = .bytes body) ↔
      size ≠ 0 ∧ size ≤ (content.length + pageSize - 1) / pageSize * pageSize := by
  rw [mmapCopy]
  split_ifs with hzero hpages
  · simp [hzero]
  · simp [hzero, hpages]
  · simp [hpages]

/-- A GET request for a file that can be opened is answered with 200 exactly when
the size can be mapped, and then with what is mapped. -/
theorem serveFile_ok_iff {env : Environment} {fileDir filePath : Bytes} {exchange : Exchange}
    (hget : exchange.request.method = .kGet)
    (hopen : openFile env.files filePath = some content) (body : Bytes) :
    (∃ state final, serveFile env fileDir filePath exchange = .ret (state, final) ∧
        final.response.statusCode = k200Ok ∧ final.response.body = body) ↔
      mmapCopy content (statSize env.files env.uninitialised fileDir) = .bytes body := by
  simp only [serveFile, hget, reduceCtorEq, if_false, hopen]
  cases mmapCopy content (statSize env.files env.uninitialised fileDir) with
  | failed =>
      simp [Exchange.setStatusCode, HttpResponse.setStatusCode, k500InternalServerError, k200Ok]
  | busError => simp
  | bytes copy =>
      simp [Exchange.record, HttpResponse.setBody, HttpResponse.setStatusCode,
        HttpResponse.setContentType, HttpResponse.addHeader]

end Content

/-- The content of the file is sent exactly when the size of the target fits: always
for a target that is a file itself, and for an index file only by chance. -/
theorem sendsContent_iff {env : Environment} {exchange : Exchange} {target : Bytes}
    (next : Handler) (htarget : HasTarget env exchange target)
    (hget : exchange.request.method = .kGet) :
    SendsContent env next exchange target ↔ SizeFits env target := by
  obtain ⟨_, hserve⟩ := handle_of_hasTarget htarget next
  constructor
  · intro hsends filePath content hfind hopen
    rw [← selectFile_eq_find] at hfind
    by_cases hmapped : ∃ body, mmapCopy content
        (statSize env.files env.uninitialised target) = .bytes body
    · obtain ⟨body, hcopy⟩ := hmapped
      obtain ⟨state, final, hfinal, hstatus, hbody⟩ :=
        (serveFile_ok_iff hget hopen body).mpr hcopy
      have hcontent := hsends filePath content state final hfind hopen
        ((hserve filePath hfind).trans hfinal) hstatus
      left
      rw [← mmapCopy_eq_content_iff hcopy, ← hbody, hcontent]
    · rw [exists_mmapCopy_iff] at hmapped
      right
      omega
  · intro hfits filePath content state final hselect hopen hhandle hstatus
    rw [hserve filePath hselect] at hhandle
    have hcopy := (serveFile_ok_iff hget hopen final.response.body).mp
      ⟨state, final, hhandle, hstatus, rfl⟩
    have hmapped := exists_mmapCopy_iff.mp ⟨_, hcopy⟩
    rw [selectFile_eq_find] at hselect
    rcases hfits filePath content hselect hopen with hsize | hzero | hpages
    · exact (mmapCopy_eq_content_iff hcopy).mpr hsize
    · exact absurd hzero hmapped.1
    · omega

def fileRequest : Exchange where
  request := { method := .kGet, version := .kHttp11, path := ascii "/index.html" }
  input := []

theorem sendsContent_of_file :
    SendsContent (indexEnv [] (ascii "index.html") (ascii "hi")) HttpDefaultHandler.handle
      fileRequest (ascii "/www/index.html") := by
  have htarget : HasTarget (indexEnv [] (ascii "index.html") (ascii "hi")) fileRequest
      (ascii "/www/index.html") := ⟨Or.inl rfl, ascii "/www/", rfl, by decide⟩
  refine (sendsContent_iff _ htarget rfl).mpr fun filePath content hfind hopen => ?_
  have hfirst : (targetPaths [] (ascii "/www/index.html")).find?
      (isfile (indexFiles (ascii "index.html") (ascii "hi"))) =
        some (ascii "/www/index.html") := by decide
  have hcontent : openFile (indexFiles (ascii "index.html") (ascii "hi"))
      (ascii "/www/index.html") = some (ascii "hi") := by decide
  cases hfirst.symm.trans hfind
  cases hcontent.symm.trans hopen
  exact Or.inl (by decide)

/-- An index file of two bytes is sent with as many bytes as its directory has. -/
theorem index_content_is_padded :
    ∃ state final,
      HttpStaticHandler.handle
          (indexEnv [ascii "index.html"] (ascii "index.html") (ascii "hi"))
          HttpDefaultHandler.handle rootRequest = .ret (state, final) ∧
        final.response.statusCode = k200Ok ∧
        final.response.body = ascii "hi" ++ List.replicate 58 NUL ∧
        ¬ SendsContent (indexEnv [ascii "index.html"] (ascii "index.html") (ascii "hi"))
          HttpDefaultHandler.handle rootRequest (ascii "/www/") := by
  have hselect : selectFile (indexEnv [ascii "index.html"] (ascii "index.html") (ascii "hi"))
      (ascii "/www/") = some (ascii "/www/index.html") := by decide
  have hcontent : openFile (indexEnv [ascii "index.html"] (ascii "index.html")
      (ascii "hi")).files (ascii "/www/index.html") = some (ascii "hi") := by decide
  obtain ⟨state, final, hserve, hstatus, hbody⟩ :=
    (@serveFile_ok_iff _ _ _ _ rootRequest rfl hcontent
      (ascii "hi" ++ List.replicate 58 NUL)).mpr
        (show mmapCopy (ascii "hi") (statSize (indexEnv [ascii "index.html"]
          (ascii "index.html") (ascii "hi")).files 0 (ascii "/www/")) = _ by decide)
  have hhandle := ((handle_of_hasTarget (hasTarget_rootRequest [ascii "index.html"]
    (ascii "index.html") (ascii "hi")) HttpDefaultHandler.handle).2 _ hselect).trans hserve
  refine ⟨state, final, hhandle, hstatus, hbody, fun hsends => ?_⟩
  have hsame := hsends _ _ state final hselect hcontent hhandle hstatus
  rw [hbody] at hsame
  exact absurd (congrArg List.length hsame) (by decide)

end Cuber.StaticContent
