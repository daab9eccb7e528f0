import FeedHandler.Foundation.PosixDirectory
import FeedHandler.Python.Basic

/-!
# The files that the bridge serves (`QuantHTTPHandler` of `bridge.py`)

A request below `/examples/` is answered with a file of the directory `EXAMPLES_DIR`.  The rest of the request path is
normalised and must not start with `..`; a rest that starts with a slash replaces the directory it is joined to.
-/

namespace FeedHandler

open Python

namespace Bridge

/-- `BASE_DIR`, for a bridge that was started as `file` in the directory `cwd` -/
def baseDir (cwd file : Str) : Str := PosixPath.dirname (PosixPath.abspath cwd file)

/-- `EXAMPLES_DIR` -/
def examplesDir (cwd file : Str) : Str := PosixPath.joinPath (baseDir cwd file) "examples".toList

/-- What a `GET` request is answered with. -/
inductive Answer where
  | healthy
  /-- `send_error(403, "Access Denied")` -/
  | accessDenied
  /-- the content of the file that is opened -/
  | opened (targetPath : Str)
  /-- what `SimpleHTTPRequestHandler` serves from `WEB_DIR` -/
  | web
deriving DecidableEq, Repr

/-- The part of a request path behind `/examples/`. -/
def examplesRest (path : Str) : Str := path.drop "/examples/".length

/-- `QuantHTTPHandler.do_GET`; `isfile` stands for `os.path.exists(p) and os.path.isfile(p)`. -/
def doGET (EXAMPLES_DIR : Str) (isfile : Str → Bool) (path : Str) : Answer :=
  if path = "/healthz".toList then
    .healthy
  else if startswith path "/examples/".toList then
    let relPath := PosixPath.normpath (examplesRest path)
    if startswith relPath PosixPath.pardir then
      .accessDenied
    else
      let targetPath := PosixPath.joinPath EXAMPLES_DIR relPath
      if isfile targetPath then .opened targetPath else .web
  else
    .web

theorem isabs_examplesDir {cwd : Str} (hcwd : PosixPath.isabs cwd = true) (file : Str) :
    PosixPath.isabs (examplesDir cwd file) = true :=
  PosixPath.isabs_joinPath (PosixPath.isabs_dirname (PosixPath.isabs_abspath hcwd file)) _

/-- What is known when a file is opened. -/
theorem doGET_opened {EXAMPLES_DIR : Str} {isfile : Str → Bool} {path targetPath : Str}
    (h : doGET EXAMPLES_DIR isfile path = .opened targetPath) :
    ¬ PosixPath.pardir <+: PosixPath.normpath (examplesRest path) ∧
      targetPath = PosixPath.joinPath EXAMPLES_DIR (PosixPath.normpath (examplesRest path)) := by
  unfold doGET at h
  dsimp only at h
  split_ifs at h with hhealth hexamples hpar hfile
  refine ⟨?_, (Answer.opened.inj h).symm⟩
  rw [← List.isPrefixOf_iff_prefix]
  exact hpar

/-- The opened file lies inside `EXAMPLES_DIR` when what follows `/examples/` is relative, and else only when it is an
absolute path into that directory. -/
theorem inside_examplesDir_iff {cwd : Str} (hcwd : PosixPath.isabs cwd = true) (file : Str) (isfile : Str → Bool)
    {path targetPath : Str} (h : doGET (examplesDir cwd file) isfile path = .opened targetPath) :
    PosixPath.Inside (examplesDir cwd file) targetPath ↔
      PosixPath.isabs (examplesRest path) = false ∨ PosixPath.Inside (examplesDir cwd file) (examplesRest path) := by
  obtain ⟨hpar, rfl⟩ := doGET_opened h
  cases habs : PosixPath.isabs (examplesRest path) with
  | false =>
    have hinside := PosixPath.inside_joinPath (isabs_examplesDir hcwd file) (PosixPath.isabs_normpath habs) hpar
    exact iff_of_true hinside (Or.inl rfl)
  | true =>
    -- an absolute second argument of `join` stands alone
    rw [PosixPath.joinPath_of_isabs _ (PosixPath.isabs_normpath_of_isabs habs),
      PosixPath.inside_normpath_iff habs]
    simp

theorem inside_examplesDir_aapl_iff :
    PosixPath.Inside (examplesDir "/srv".toList "bridge.py".toList) "/srv/examples/aapl.csv".toList ↔
      PosixPath.isabs (examplesRest "/examples/./x/../aapl.csv".toList) = false ∨
        PosixPath.Inside (examplesDir "/srv".toList "bridge.py".toList)
          (examplesRest "/examples/./x/../aapl.csv".toList) :=
  inside_examplesDir_iff (by decide) _ (fun p => p = "/srv/examples/aapl.csv".toList) (by decide)

/-- A second slash behind `/examples` opens any file. -/
theorem double_slash_leaves_examplesDir :
    doGET (examplesDir "/srv".toList "bridge.py".toList) (fun p => p = "/etc/passwd".toList)
        "/examples//etc/passwd".toList = .opened "/etc/passwd".toList ∧
      ¬ PosixPath.Inside (examplesDir "/srv".toList "bridge.py".toList) "/etc/passwd".toList := by
  decide

end Bridge

end FeedHandler
