import Cuber.Core.PathWalk
import Cuber.Http.Grammar
import Cuber.Http.StaticSearch

/-!
# Static files and their directories

A static location is an alias for a directory.  The name of a served file is
the alias followed by the rest of the request path, which is taken from the
request line as it is.  This module resolves such a name as the kernel would,
apart from symbolic links, and works out for which requests every file served
lies under the directory of its location.
-/

namespace Cuber.Confinement

open Cuber.Config
open Cuber.Context
open Cuber.Execution
open Cuber.Grammar
open Cuber.Handlers
open Cuber.LocationSearch
open Cuber.Loop
open Cuber.Maps
open Cuber.PathWalk
open Cuber.Request
open Cuber.Server
open Cuber.StaticSearch
open Cuber.Text

/-! ## Resolving a path name -/

def segmentOf (part : Bytes) : Segment Bytes :=
  if part = [] ∨ part = ascii "." then .stay
  else if part = ascii ".." then .up
  else .down part

def components (path : Bytes) : List (Segment Bytes) :=
  (path.splitOn slash).map segmentOf

/-- The names on the way from the root to an absolute path, without `.` and
`..`. -/
def resolve (path : Bytes) : List Bytes :=
  walk [] (components path)

/-- An absolute path name of a directory, written with a slash at its end. -/
structure IsDirectoryAlias (aliasDir : Bytes) : Prop where
  absolute : aliasDir.head? = some slash
  directory : aliasDir.getLast? = some slash
  noNul : 0 ∉ aliasDir

theorem components_append_slash (front rest : Bytes) :
    components (front ++ slash :: rest) = components front ++ components rest := by
  rw [components, List.splitOn_append_cons_self, List.map_append]
  rfl

theorem resolve_append {aliasDir : Bytes} (hdir : aliasDir.getLast? = some slash)
    (tail : Bytes) :
    resolve (aliasDir ++ tail) = walk (resolve aliasDir) (components tail) := by
  obtain ⟨front, rfl⟩ := List.getLast?_eq_some_iff.mp hdir
  have hfront : resolve (front ++ [slash]) = walk [] (components front) := by
    rw [resolve, components_append_slash, walk_append]
    rfl
  rw [hfront, resolve, List.append_assoc, List.singleton_append,
    components_append_slash, walk_append]

theorem cStr_append {front : Bytes} (hfront : 0 ∉ front) (tail : Bytes) :
    cStr (front ++ tail) = front ++ cStr tail := by
  apply List.takeWhile_append_of_pos
  intro byte hbyte
  simp only [ne_eq, decide_not, Bool.not_eq_eq_eq_not, Bool.not_true, decide_eq_false_iff_not]
  rintro rfl
  exact hfront hbyte

/-! ## Confinement -/

/-- The path name that the kernel is given lies under the directory. -/
def LiesUnder (aliasDir filePath : Bytes) : Prop :=
  resolve aliasDir <+: resolve (cStr filePath)

/-- The rest of a path name climbs out of a directory only to come back down
through the directories it has left. -/
def ComesBack (aliasDir tail : Bytes) : Prop :=
  (resolve aliasDir).drop ((resolve aliasDir).length -
      (excursion (components (cStr tail))).ups) <+:
    (excursion (components (cStr tail))).names

theorem liesUnder_iff {aliasDir : Bytes} (hdir : IsDirectoryAlias aliasDir)
    (tail : Bytes) :
    LiesUnder aliasDir (aliasDir ++ tail) ↔ ComesBack aliasDir tail := by
  rw [LiesUnder, cStr_append hdir.noNul, resolve_append hdir.directory,
    isPrefix_walk_iff, ComesBack]

/-- A GET or HEAD request as a client sends it. -/
structure FileRequest where
  head : Bytes
  request : HttpRequest
  accepted : parseRequest {} head = .ret ⟨.kParseOK, ⟨.kGotAll, request⟩, []⟩
  method : request.method = .kGet ∨ request.method = .kHead

section Requests

variable (config : ServerConfig) (listenPort : Port)

/-- Whatever the file system, every file served for the request lies under the
directory of the location that was matched. -/
def Confined (request : HttpRequest) : Prop :=
  ∀ env : Environment, env.config = config → env.listenPort = listenPort →
    ∀ input handled, onRequest env request input = .ret handled →
      ∀ location filePath, .served location filePath ∈ handled.exchange.log →
        ∃ aliasDir, config.staticPath location = some aliasDir ∧
          LiesUnder aliasDir filePath

/-- The first attempt at a path name is one whose name was not given to the
kernel for a location before it. -/
def IsFirstAttempt (path location filePath : Bytes) : Prop :=
  ∃ before after, attempts config listenPort path path.length =
      before ++ (location, filePath) :: after ∧
    ∀ attempt ∈ before, cStr attempt.2 ≠ cStr filePath

theorem find_eq_some_of_isFirstAttempt {path location filePath : Bytes}
    (hfirst : IsFirstAttempt config listenPort path location filePath) :
    (attempts config listenPort path path.length).find?
        (isFileAt (soleFile config listenPort (cStr filePath))) =
      some (location, filePath) := by
  obtain ⟨before, after, hattempts, hbefore⟩ := hfirst
  rw [hattempts, List.find?_eq_some_iff_append]
  refine ⟨(isfile_soleFile filePath).mpr rfl, before, after, rfl, fun attempt hmem => ?_⟩
  rw [Bool.not_eq_true', ← Bool.not_eq_true, isFileAt, isfile_soleFile]
  exact hbefore attempt hmem

theorem isFirstAttempt_of_find {env : Environment} {path location filePath : Bytes}
    (hfind : (attempts config listenPort path path.length).find? (isFileAt env) =
      some (location, filePath)) :
    IsFirstAttempt config listenPort path location filePath := by
  obtain ⟨hfile, before, after, hattempts, hbefore⟩ :=
    List.find?_eq_some_iff_append.mp hfind
  refine ⟨before, after, hattempts, fun attempt hmem hsame => ?_⟩
  have hnot := hbefore attempt hmem
  rw [isFileAt, FileUtil.isfile] at hfile
  rw [isFileAt, FileUtil.isfile, hsame, hfile] at hnot
  cases hnot

theorem IsFirstAttempt.mem {path location filePath : Bytes}
    (hfirst : IsFirstAttempt config listenPort path location filePath) :
    (location, filePath) ∈ attempts config listenPort path path.length := by
  obtain ⟨before, after, hattempts, _⟩ := hfirst
  simp [hattempts]

/-- A first attempt is served in a file system that has no other file. -/
theorem exists_served_of_isFirstAttempt (asked : FileRequest)
    {location filePath : Bytes}
    (hfirst : IsFirstAttempt config listenPort asked.request.path location filePath) :
    ∃ final, .served location filePath ∈ final.log ∧
      onRequest (soleFile config listenPort (cStr filePath)) asked.request [] =
        .ret (finish (soleFile config listenPort (cStr filePath)) false final) := by
  have hpath : asked.request.path ≠ [] := by
    intro hpath
    have hmem := hfirst.mem
    rw [hpath, attempts_of_take_nil rfl] at hmem
    cases hmem
  have hposition := locationEndPos_of_accepted asked.accepted
  have hfind := find_eq_some_of_isFirstAttempt config listenPort hfirst
  rw [← hposition] at hfind
  have hasks : AsksForFile (Exchange.mk asked.request {} [] []).request :=
    ⟨asked.method, hpath⟩
  obtain ⟨final, hserved, hreturns⟩ := soleFile_serves hasks hfind
  exact ⟨final, hserved, onRequest_of_returns hreturns⟩

/-- A file that is served was the first attempt at its name. -/
theorem isFirstAttempt_of_served {env : Environment} (asked : FileRequest)
    {input : Bytes} {handled : Handled} {location filePath : Bytes}
    (hrequest : onRequest env asked.request input = .ret handled)
    (hserved : .served location filePath ∈ handled.exchange.log) :
    IsFirstAttempt env.config env.listenPort asked.request.path location filePath := by
  have hpath := path_ne_nil_of_onRequest hrequest
  obtain ⟨forwarded, final, rfl, hreturns⟩ := returns_of_onRequest hrequest
  rw [finish_log] at hserved
  rcases served_first ⟨asked.method, hpath⟩ hreturns hserved with hold | hfind
  · cases hold
  · rw [remaining, locationEndPos_of_accepted asked.accepted] at hfind
    exact isFirstAttempt_of_find _ _ hfind

/-- The files served for a request all lie under the directories of their
locations if and only if every path name tried for it, other than one already
tried for a longer location, stays under the directory it starts from or comes
back to it. -/
theorem confined_iff
    (haliases : ∀ location aliasDir, config.staticPath location = some aliasDir →
      IsDirectoryAlias aliasDir) (asked : FileRequest) :
    Confined config listenPort asked.request ↔
      ∀ location filePath,
        IsFirstAttempt config listenPort asked.request.path location filePath →
          ∀ aliasDir, config.staticPath location = some aliasDir →
            ComesBack aliasDir (filePath.drop aliasDir.length) := by
  constructor
  · intro hconfined location filePath hfirst aliasDir halias
    obtain ⟨final, hserved, hrequest⟩ :=
      exists_served_of_isFirstAttempt config listenPort asked hfirst
    obtain ⟨aliasDir', halias', hunder⟩ := hconfined _ rfl rfl [] _ hrequest
      location filePath (by rwa [finish_log])
    obtain ⟨aliasDir'', tail, halias'', rfl⟩ := exists_tail_of_mem_attempts hfirst.mem
    cases halias.symm.trans halias'
    cases halias.symm.trans halias''
    rw [List.drop_left]
    exact (liesUnder_iff (haliases location aliasDir halias) tail).mp hunder
  · rintro hstays env rfl rfl input handled hrequest location filePath hserved
    have hfirst := isFirstAttempt_of_served asked hrequest hserved
    obtain ⟨aliasDir, tail, halias, rfl⟩ := exists_tail_of_mem_attempts hfirst.mem
    have hback := hstays location _ hfirst aliasDir halias
    rw [List.drop_left] at hback
    exact ⟨aliasDir, halias,
      (liesUnder_iff (haliases location aliasDir halias) tail).mpr hback⟩

end Requests

/-- A configuration with one static location. -/
def siteConfig : ServerConfig :=
  ServerConfig.addStatic {} { location := ascii "/", aliasDir := ascii "/srv/www/" }

theorem siteConfig_aliases (location aliasDir : Bytes)
    (halias : siteConfig.staticPath location = some aliasDir) :
    IsDirectoryAlias aliasDir := by
  have hsite : siteConfig.staticPath location =
      if ascii "/" = location then some (ascii "/srv/www/") else none := by
    by_cases hroot : ascii "/" = location <;>
      simp [siteConfig, ServerConfig.addStatic, ServerConfig.staticPath,
        OrderedMap.insert, OrderedMap.find?, OrderedMap.empty, insertEntry, hroot]
  rw [hsite] at halias
  split_ifs at halias
  cases halias
  exact ⟨by decide, by decide, by decide⟩

/-- A request whose path climbs out of the directory. -/
def climbingRequest : FileRequest where
  head := ascii "GET /../secret HTTP/1.1\r\n\r\n"
  request :=
    { method := .kGet, version := .kHttp11, path := ascii "/../secret",
      locationEndPos := 10 }
  accepted := by decide
  method := Or.inl rfl

/-- The request is answered with a file outside the directory. -/
theorem climbingRequest_not_confined :
    (∀ location aliasDir, siteConfig.staticPath location = some aliasDir →
        IsDirectoryAlias aliasDir) ∧
      ¬ Confined siteConfig httpPort climbingRequest.request := by
  refine ⟨siteConfig_aliases, fun hconfined => ?_⟩
  have hserved : ∃ handled,
      onRequest (soleFile siteConfig httpPort (ascii "/srv/www/../secret"))
          climbingRequest.request [] = .ret handled ∧
        .served (ascii "/") (ascii "/srv/www/../secret") ∈ handled.exchange.log :=
    ⟨_, rfl, by decide⟩
  obtain ⟨handled, hrequest, hlog⟩ := hserved
  obtain ⟨aliasDir, halias, hunder⟩ :=
    hconfined _ rfl rfl [] handled hrequest _ _ hlog
  have hsite : siteConfig.staticPath (ascii "/") = some (ascii "/srv/www/") := by
    decide
  cases hsite.symm.trans halias
  exact absurd hunder (by unfold LiesUnder; decide)

def plainRequest : FileRequest where
  head := ascii "HEAD /a HTTP/1.1\r\n\r\n"
  request :=
    { method := .kHead, version := .kHttp11, path := ascii "/a", locationEndPos := 2 }
  accepted := by decide
  method := Or.inr rfl

/-- A request without dots stays in the directory. -/
theorem plainRequest_confined : Confined siteConfig httpPort plainRequest.request := by
  apply (confined_iff siteConfig httpPort siteConfig_aliases plainRequest).mpr
  intro location filePath hfirst aliasDir halias
  have hattempts : attempts siteConfig httpPort plainRequest.request.path
      plainRequest.request.path.length =
        [(ascii "/", ascii "/srv/www/a")] := by
    have hsearch : searchLocation siteConfig.locations (plainRequest.request.path.take
        plainRequest.request.path.length) = some (ascii "/") := by
      decide
    rw [attempts_of_location (by decide) hsearch,
      show siteConfig.staticPath (ascii "/") = some (ascii "/srv/www/") by decide]
    simp only
    rw [attempts_of_take_nil (by decide)]
    decide
  have hmem := hfirst.mem
  rw [hattempts, List.mem_singleton] at hmem
  cases hmem
  have hsite : siteConfig.staticPath (ascii "/") = some (ascii "/srv/www/") := by
    decide
  cases hsite.symm.trans halias
  unfold ComesBack
  decide

end Cuber.Confinement
