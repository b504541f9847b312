import Slfs.Proxy.Locks

/-
  What the functions of a client return.

  A function returns 1 if it takes the texts of its replies
  for success, and -1 if not or if an exception was thrown.
  Errors begin with `Error: `, but some functions look for
  `ERROR`, and some do not look at all.

  Main declarations:
    * `Client.Code.mkdir` and the other functions
    * `Client.Call.right_iff_recognised`
-/

----------
-- The Functions
----------

namespace Slfs

namespace Client

namespace Code

/- `final_resp`, the text up to the first zero. -/
def finalResp (resp : Bytes) : Bytes :=
  resp.takeWhile (fun b => b != 0)

/- `rfind` at position 0. -/
def startsWith (text : String) (resp : Bytes) : Bool :=
  (Decimal.ascii text).isPrefixOf resp

/-
  The code for a reply whose text is compared with `OK`. No
  reply stands for an exception.
-/
def ofOk (resp : Option Bytes) : Int :=
  match resp with
  | none => -1
  | some resp =>
      if finalResp resp = Decimal.ascii "OK" then 1 else -1

def mkdir (resp : Option Bytes) : Int :=
  ofOk resp

def addFile (resp : Option Bytes) : Int :=
  ofOk resp

def deleteFile (resp : Option Bytes) : Int :=
  ofOk resp

def write (resp : Option Bytes) : Int :=
  ofOk resp

/- Address and port, copied from the start of the reply. -/
def endpointOf (resp : Bytes) : Vector UInt8 6 :=
  Vector.ofFn (fun i => resp.getD i 0)

/- `connects` tells where `add_endpoint` does not throw. -/
def openFile
    (connects : Vector UInt8 6 → Bool)
    (resp : Option Bytes) : Int :=
  match resp with
  | none => -1
  | some resp =>
      if startsWith "ERROR" resp then -1
      else if connects (endpointOf resp) then 1
      else -1

def read (resp : Option Bytes) : Int :=
  match resp with
  | none => -1
  | some resp =>
      if Decimal.ascii "Error" <:+: resp then -1 else 1

/- Only exceptions count, not what the replies say. -/
def renameFile
    (sameProxy : Bool)
    (lock rename : Option Bytes) : Int :=
  if !sameProxy && lock.isNone then -1
  else
    match rename with
    | none => -1
    | some _ => 1

/-
  Open, a request to the worker, and close. The endpoint is
  added in a `try` of its own, whose exceptions are dropped.
-/
def direct
    (final : Bytes → Int)
    (opened asked closed : Option Bytes) : Int :=
  match opened with
  | none => -1
  | some resp =>
      if startsWith "ERROR" resp then -1
      else
        match asked with
        | none => -1
        | some resp2 =>
            if startsWith "ERROR" resp2 then -1
            else
              match closed with
              | none => -1
              | some resp3 => final (finalResp resp3)

def directRead : Option Bytes → Option Bytes →
    Option Bytes → Int :=
  direct
    (fun final => if startsWith "ERROR" final then -1 else 1)

def directWrite : Option Bytes → Option Bytes →
    Option Bytes → Int :=
  direct
    (fun final => if final = Decimal.ascii "OK" then 1 else -1)

end Code

----------
-- Replies
----------

open Proxy (Locks)

open Coordinator (literal)

/- A reply with what was asked for, or with an error text. -/
inductive Answer (σ : Type) where
| success (value : σ)
| error (text : Bytes)
deriving DecidableEq, Repr

namespace Answer

variable {σ : Type}

def bytes (encode : σ → Bytes) : Answer σ → Bytes
| .success value => encode value
| .error text => Decimal.ascii "Error: " ++ text

def succeeded : Answer σ → Bool
| .success _ => true
| .error _ => false

/- A reply without data. -/
def done : Unit → Bytes :=
  fun _ => literal "OK"

end Answer

/- What becomes of opening a file, for the client. -/
theorem answer_of_startReadBody_open
    (endpoint : Vector UInt8 6)
    (success : Bool)
    (data : Bytes)
    (l : Locks) :
    ∃ a : Answer (Vector UInt8 6),
      (l.startReadBody endpoint
          (if success then .openFileSuccess
            else .openFileNotFound) data).1 =
          a.bytes Vector.toList ∧
        a.succeeded = success := by
  cases success with
  | true => exact ⟨.success endpoint, rfl, rfl⟩
  | false =>
      exact ⟨.error (literal "File not found"), rfl, rfl⟩

/- What becomes of renaming a file. -/
theorem answer_of_startReadBody_rename
    (endpoint : Vector UInt8 6)
    (success : Bool)
    (data : Bytes)
    (l : Locks) :
    ∃ a : Answer Unit,
      (l.startReadBody endpoint
          (if success then .renameSuccess
            else .renameFail) data).1 =
          a.bytes Answer.done ∧
        a.succeeded = success := by
  cases success with
  | true => exact ⟨.success (), rfl, rfl⟩
  | false =>
      exact ⟨.error (literal "Invalid argumnts"), rfl, rfl⟩

/- What a proxy answers itself, apart from an endpoint. -/
theorem answer_of_triggerMetadata
    {op : MetaOperation}
    {input : Jsre.Request}
    {l l' : Locks}
    {type : Proxy.MsgT}
    {data : Bytes}
    (hRouted :
      l.triggerMetadata op input =
        some (.answer type data, l'))
    (hType : type ≠ .proxySendIp) :
    ∃ a : Answer Unit, data = a.bytes Answer.done := by
  unfold Locks.triggerMetadata at hRouted
  cases op with
  | «open» =>
      cases hOpened : l.openedFiles.lookup input.fileKey with
      | none =>
          rw [hOpened] at hRouted
          cases hRouted
      | some n =>
          rw [hOpened] at hRouted
          cases hRouted
          exact absurd rfl hType
  | deletefile =>
      simp only at hRouted
      split at hRouted
      · cases hRouted
        exact ⟨.error
          (literal "Cannot delete opened/locked file"), rfl⟩
      · cases hRouted
  | renameSameproxy =>
      simp only at hRouted
      split at hRouted
      · cases hRouted
        exact ⟨.error
          (literal "Cannot rename opened/locked file"), rfl⟩
      · simp only [Option.bind_eq_bind,
          Option.bind_eq_some_iff] at hRouted
        rcases hRouted with ⟨_, _, hForward⟩
        cases hForward
  | close =>
      cases hOpened : l.openedFiles.lookup input.fileKey with
      | none =>
          rw [hOpened] at hRouted
          cases hRouted
          exact ⟨.error (literal "File is not open"), rfl⟩
      | some n =>
          rw [hOpened] at hRouted
          cases hRouted
          exact ⟨.success (), rfl⟩
  | lock | unlock =>
      cases hRouted
      exact ⟨.success (), rfl⟩
  | _ => cases hRouted

----------
-- Calls
----------

/- A request with its reply, or with an exception. -/
abbrev Exchange (σ : Type) := Option (Answer σ)

namespace Exchange

variable {σ : Type}

def succeeded (x : Exchange σ) : Bool :=
  x.any Answer.succeeded

def bytes (encode : σ → Bytes) (x : Exchange σ) :
    Option Bytes :=
  x.map (Answer.bytes encode)

/- The reply begins with what is taken for an error. -/
def marked (encode : σ → Bytes) (x : Exchange σ) : Bool :=
  x.any (fun a => Code.startsWith "ERROR" (a.bytes encode))

end Exchange

/- The functions with the exchanges that they make. -/
inductive Call where
| mkdir (made : Exchange Unit)
| addFile (added : Exchange Unit)
| deleteFile (deleted : Exchange Unit)
| write (written : Exchange Unit)
| openFile (opened : Exchange (Vector UInt8 6))
| read (loaded : Exchange Bytes)
| renameFile (sameProxy : Bool)
    (locked renamed : Exchange Unit)
| directRead (opened : Exchange (Vector UInt8 6))
    (loaded : Exchange Bytes) (closed : Exchange Unit)
| directWrite (opened : Exchange (Vector UInt8 6))
    (written closed : Exchange Unit)

namespace Call

open Answer (done)

variable (connects : Vector UInt8 6 → Bool)

/- What is returned. -/
def code : Call → Int
| .mkdir made => Code.mkdir (made.bytes done)
| .addFile added => Code.addFile (added.bytes done)
| .deleteFile deleted => Code.deleteFile (deleted.bytes done)
| .write written => Code.write (written.bytes done)
| .openFile opened =>
    Code.openFile connects (opened.bytes Vector.toList)
| .read loaded => Code.read (loaded.bytes id)
| .renameFile sameProxy locked renamed =>
    Code.renameFile sameProxy (locked.bytes done)
      (renamed.bytes done)
| .directRead opened loaded closed =>
    Code.directRead (opened.bytes Vector.toList)
      (loaded.bytes id) (closed.bytes done)
| .directWrite opened written closed =>
    Code.directWrite (opened.bytes Vector.toList)
      (written.bytes done) (closed.bytes done)

/- All requests were answered with success. -/
def succeeded : Call → Bool
| .mkdir made => made.succeeded
| .addFile added => added.succeeded
| .deleteFile deleted => deleted.succeeded
| .write written => written.succeeded
| .openFile opened => opened.succeeded
| .read loaded => loaded.succeeded
| .renameFile sameProxy locked renamed =>
    (sameProxy || locked.succeeded) && renamed.succeeded
| .directRead opened loaded closed =>
    opened.succeeded && loaded.succeeded && closed.succeeded
| .directWrite opened written closed =>
    opened.succeeded && written.succeeded && closed.succeeded

/- The code tells success from failure. -/
def Right (call : Call) : Prop :=
  call.code connects = if call.succeeded then 1 else -1

/-
  The replies that are told apart. An endpoint or a content
  may look like an error. An error is noticed by `open_file`
  only if nothing listens at the address that its text is
  taken for, by `rename_file` not at all, and by the direct
  functions only if it is that of the close of a write.
-/
def Recognised : Call → Prop
| .openFile (some (.success endpoint)) =>
    Code.startsWith "ERROR" endpoint.toList = false ∧
      connects endpoint = true
| .openFile (some (.error text)) =>
    connects
      (Code.endpointOf (Decimal.ascii "Error: " ++ text)) =
        false
| .read (some (.success content)) =>
    ¬ Decimal.ascii "Error" <:+: content
| .renameFile sameProxy locked renamed =>
    sameProxy = true ∨ locked.isSome = true →
      renamed.isSome = true →
        (sameProxy = true ∨ locked.succeeded = true) ∧
          renamed.succeeded = true
| .directRead opened loaded closed =>
    if opened.succeeded && loaded.succeeded &&
        closed.succeeded then
      opened.marked Vector.toList = false ∧
        loaded.marked id = false
    else
      opened = none ∨ loaded = none ∨ closed = none ∨
        opened.marked Vector.toList = true ∨
        loaded.marked id = true
| .directWrite opened written closed =>
    if opened.succeeded && written.succeeded &&
        closed.succeeded then
      opened.marked Vector.toList = false
    else
      opened = none ∨ written = none ∨
        closed.succeeded = false ∨
        opened.marked Vector.toList = true
| _ => True

end Call

----------
-- Which Replies Are Told Apart
----------

open Answer (done)

theorem startsWith_error (text : Bytes) :
    Code.startsWith "ERROR" (Decimal.ascii "Error: " ++ text) =
      false :=
  rfl

theorem finalResp_error (text : Bytes) :
    Code.finalResp (Decimal.ascii "Error: " ++ text) =
      Decimal.ascii "Error: " ++ Code.finalResp text := by
  unfold Code.finalResp
  rw [List.takeWhile_append_of_pos]
  decide +kernel

/- The text of an error is never that of success. -/
theorem finalResp_error_ne (text : Bytes) :
    Code.finalResp (Decimal.ascii "Error: " ++ text) ≠
      Decimal.ascii "OK" := by
  rw [finalResp_error]
  intro hSame
  have hHead := congrArg List.head? hSame
  revert hHead
  exact of_decide_eq_false rfl

theorem finalResp_done :
    Code.finalResp (done ()) = Decimal.ascii "OK" := by
  decide

theorem error_mem (text : Bytes) :
    Decimal.ascii "Error" <:+: Decimal.ascii "Error: " ++ text :=
  ⟨[], Decimal.ascii ": " ++ text, rfl⟩

theorem endpointOf_toList (endpoint : Vector UInt8 6) :
    Code.endpointOf endpoint.toList = endpoint := by
  ext i hi
  simp [Code.endpointOf]

namespace Exchange

variable {σ : Type}

theorem isSome_of_succeeded
    {x : Exchange σ}
    (hSucceeded : x.succeeded = true) :
    x.isSome = true := by
  cases x with
  | none => cases hSucceeded
  | some a => rfl

/- Without data, a reply is never taken for an error. -/
theorem marked_done (x : Exchange Unit) :
    x.marked done = false := by
  match x with
  | none => rfl
  | some (.success ()) => decide
  | some (.error text) => exact startsWith_error text

/- The text of a reply without data tells success. -/
theorem ofOk_bytes (x : Exchange Unit) :
    Code.ofOk (x.bytes done) =
      if x.succeeded then 1 else -1 := by
  match x with
  | none => rfl
  | some (.success ()) => decide
  | some (.error text) =>
      simp only [Exchange.bytes, Option.map_some,
        Answer.bytes, Code.ofOk]
      rw [if_neg (finalResp_error_ne text)]
      rfl

/- The requests before the close. -/
theorem direct_bytes
    {τ : Type}
    (encode : σ → Bytes)
    (encode' : τ → Bytes)
    (final : Bytes → Int)
    (opened : Exchange σ)
    (asked : Exchange τ)
    (closed : Exchange Unit) :
    Code.direct final (opened.bytes encode)
        (asked.bytes encode') (closed.bytes done) =
      if opened.isSome && asked.isSome &&
          !opened.marked encode && !asked.marked encode' then
        match closed with
        | none => -1
        | some a => final (Code.finalResp (a.bytes done))
      else -1 := by
  cases opened with
  | none => rfl
  | some a =>
      cases asked with
      | none =>
          simp [Code.direct, Exchange.bytes]
      | some b =>
          simp only [Code.direct, Exchange.bytes, marked,
            Option.map_some, Option.isSome_some, Option.any_some,
            Bool.true_and]
          cases Code.startsWith "ERROR" (a.bytes encode) with
          | true => rfl
          | false =>
              cases Code.startsWith "ERROR" (b.bytes encode') with
              | true => rfl
              | false =>
                  cases closed with
                  | none => rfl
                  | some c => rfl

end Exchange

/- Two codes are the same if the reasons are. -/
theorem code_eq_iff (p q : Bool) :
    ((if p then 1 else -1 : Int) = if q then 1 else -1) ↔
      p = q := by
  cases p <;> cases q <;> decide

namespace Call

variable (connects : Vector UInt8 6 → Bool)

variable {connects} in
theorem right_iff_of_code
    {call : Call}
    {p : Bool}
    (hCode : call.code connects = if p then 1 else -1) :
    call.Right connects ↔ p = call.succeeded := by
  unfold Right
  rw [hCode, code_eq_iff]

theorem right_openFile (opened : Exchange (Vector UInt8 6)) :
    (Call.openFile opened).Right connects ↔
      (Call.openFile opened).Recognised connects := by
  match opened with
  | none => exact ⟨fun _ => trivial, fun _ => rfl⟩
  | some (.success endpoint) =>
      have hCode :
          (Call.openFile (some (.success endpoint))).code
              connects =
            if Code.startsWith "ERROR" endpoint.toList then -1
            else if connects endpoint then 1 else -1 := by
        simp only [code, Exchange.bytes, Option.map_some,
          Answer.bytes, Code.openFile, endpointOf_toList]
      simp only [Right, Recognised, hCode]
      cases Code.startsWith "ERROR" endpoint.toList with
      | true => simp [succeeded, Exchange.succeeded,
          Answer.succeeded]
      | false =>
          simp only [Bool.false_eq_true, if_false, true_and]
          exact code_eq_iff _ true
  | some (.error text) =>
      have hCode :
          (Call.openFile (some (.error text))).code connects =
            if connects
                (Code.endpointOf
                  (Decimal.ascii "Error: " ++ text)) then 1
            else -1 := by
        simp only [code, Exchange.bytes, Option.map_some,
          Answer.bytes, Code.openFile, startsWith_error,
          Bool.false_eq_true, if_false]
      simp only [Right, Recognised, hCode]
      exact code_eq_iff _ false

theorem right_read (loaded : Exchange Bytes) :
    (Call.read loaded).Right connects ↔
      (Call.read loaded).Recognised connects := by
  match loaded with
  | none => exact ⟨fun _ => trivial, fun _ => rfl⟩
  | some (.success content) =>
      simp only [Right, Recognised, code, Exchange.bytes,
        Option.map_some, Answer.bytes, Code.read, id]
      by_cases hInfix : Decimal.ascii "Error" <:+: content
      · simp [hInfix, succeeded, Exchange.succeeded,
          Answer.succeeded]
      · simp [hInfix, succeeded, Exchange.succeeded,
          Answer.succeeded]
  | some (.error text) =>
      simp only [Right, Recognised, code, Exchange.bytes,
        Option.map_some, Answer.bytes, Code.read, iff_true]
      rw [if_pos (error_mem text)]
      rfl

theorem right_renameFile
    (sameProxy : Bool)
    (locked renamed : Exchange Unit) :
    (Call.renameFile sameProxy locked renamed).Right
        connects ↔
      (Call.renameFile sameProxy locked renamed).Recognised
        connects := by
  have hCode :
      (Call.renameFile sameProxy locked renamed).code connects =
        if (sameProxy || locked.isSome) && renamed.isSome then 1
        else -1 := by
    cases sameProxy <;> cases locked <;> cases renamed <;> rfl
  have hLocked := locked.isSome_of_succeeded
  have hRenamed := renamed.isSome_of_succeeded
  rw [right_iff_of_code hCode]
  simp only [Recognised, succeeded]
  revert hLocked hRenamed
  cases sameProxy <;> cases locked.isSome <;>
    cases renamed.isSome <;> cases locked.succeeded <;>
    cases renamed.succeeded <;> simp

theorem right_directRead
    (opened : Exchange (Vector UInt8 6))
    (loaded : Exchange Bytes)
    (closed : Exchange Unit) :
    (Call.directRead opened loaded closed).Right connects ↔
      (Call.directRead opened loaded closed).Recognised
        connects := by
  have hCode :
      (Call.directRead opened loaded closed).code connects =
        if opened.isSome && loaded.isSome &&
            !opened.marked Vector.toList &&
            !loaded.marked id && closed.isSome then 1
        else -1 := by
    simp only [code, Code.directRead, Exchange.direct_bytes]
    match closed with
    | none => simp
    | some (.success ()) =>
        have hFinal :
            Code.startsWith "ERROR"
              (Code.finalResp (done ())) = false := by
          decide
        simp [Answer.bytes, hFinal]
    | some (.error text) =>
        simp [Answer.bytes, finalResp_error, startsWith_error]
  rw [right_iff_of_code hCode]
  simp only [Recognised, succeeded]
  cases hAll :
      opened.succeeded && loaded.succeeded &&
        closed.succeeded with
  | true =>
      simp only [Bool.and_eq_true] at hAll
      rcases hAll with ⟨⟨hOpened, hLoaded⟩, hClosed⟩
      rw [Exchange.isSome_of_succeeded hOpened,
        Exchange.isSome_of_succeeded hLoaded,
        Exchange.isSome_of_succeeded hClosed]
      simp
  | false =>
      simp only [Bool.and_eq_false_iff, Bool.not_eq_false',
        Option.isSome_eq_false_iff,
        Option.isNone_iff_eq_none, Bool.false_eq_true,
        if_false]
      tauto

theorem right_directWrite
    (opened : Exchange (Vector UInt8 6))
    (written closed : Exchange Unit) :
    (Call.directWrite opened written closed).Right connects ↔
      (Call.directWrite opened written closed).Recognised
        connects := by
  have hCode :
      (Call.directWrite opened written closed).code connects =
        if opened.isSome && written.isSome &&
            !opened.marked Vector.toList &&
            closed.succeeded then 1
        else -1 := by
    simp only [code, Code.directWrite, Exchange.direct_bytes,
      written.marked_done]
    match closed with
    | none => simp [Exchange.succeeded]
    | some (.success ()) =>
        simp [Exchange.succeeded, Answer.succeeded,
          Answer.bytes, finalResp_done]
    | some (.error text) =>
        simp [Exchange.succeeded, Answer.succeeded,
          Answer.bytes, finalResp_error_ne text]
  rw [right_iff_of_code hCode]
  simp only [Recognised, succeeded]
  cases hAll :
      opened.succeeded && written.succeeded &&
        closed.succeeded with
  | true =>
      simp only [Bool.and_eq_true] at hAll
      rcases hAll with ⟨⟨hOpened, hWritten⟩, hClosed⟩
      rw [Exchange.isSome_of_succeeded hOpened,
        Exchange.isSome_of_succeeded hWritten, hClosed]
      simp
  | false =>
      simp only [Bool.and_eq_false_iff, Bool.not_eq_false',
        Option.isSome_eq_false_iff,
        Option.isNone_iff_eq_none, Bool.false_eq_true,
        if_false]
      tauto

/-
  For all replies, the code of a function is right exactly
  if the replies are among those that are told apart.
-/
theorem right_iff_recognised (call : Call) :
    call.Right connects ↔ call.Recognised connects := by
  cases call with
  | mkdir made =>
      exact ⟨fun _ => trivial, fun _ => made.ofOk_bytes⟩
  | addFile added =>
      exact ⟨fun _ => trivial, fun _ => added.ofOk_bytes⟩
  | deleteFile deleted =>
      exact ⟨fun _ => trivial, fun _ => deleted.ofOk_bytes⟩
  | write written =>
      exact ⟨fun _ => trivial, fun _ => written.ofOk_bytes⟩
  | openFile opened => exact right_openFile connects opened
  | read loaded => exact right_read connects loaded
  | renameFile sameProxy locked renamed =>
      exact right_renameFile connects sameProxy locked renamed
  | directRead opened loaded closed =>
      exact right_directRead connects opened loaded closed
  | directWrite opened written closed =>
      exact right_directWrite connects opened written closed

/- A worker at 127.0.0.1 and port 12001. -/
def sampleEndpoint : Vector UInt8 6 :=
  #v[127, 0, 0, 1, 46, 225]

/- The error for a file that is not open. -/
def notOpen {σ : Type} : Exchange σ :=
  some (.error (Coordinator.literal "File is not open"))

/- A worker that can be reached, and nobody else. -/
def reachesWorker (endpoint : Vector UInt8 6) : Bool :=
  endpoint = sampleEndpoint

/-
  Errors that are taken for success: of a renaming, of all
  three requests of a direct read, and of the write itself.
  And a content that is taken for an error.
-/
theorem wrong_codes :
    (Call.renameFile true none
        (some
          (.error
            (Coordinator.literal "Invalid argumnts")))).code
          reachesWorker = 1 ∧
      (Call.directRead notOpen notOpen notOpen).code
          reachesWorker = 1 ∧
      (Call.directWrite (some (.success sampleEndpoint))
          notOpen (some (.success ()))).code
          reachesWorker = 1 ∧
      (Call.read
          (some (.success (Decimal.ascii "An Error")))).code
          reachesWorker = -1 := by
  decide +kernel

end Call

end Client

end Slfs
