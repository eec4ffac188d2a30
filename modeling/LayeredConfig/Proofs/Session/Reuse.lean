import LayeredConfig.Proofs.Session.Frames

/-!
# Sessions can be reused

A session outlives the documents that it parses. Every call drops the frames that it finds, and its
document puts back those that it adds, whether it fails or not and however deep in an include
(`balanced_parseDocument`). So no call sees anything of the calls before it: `Call.run_parse` says
what one call answers and leaves, and `sessions_are_reusable` says it of every sequence of calls.
-/

namespace LayeredConfig.Session

/-- A call on a session, with the files as they are at that time. -/
inductive Call
  | file (fs : FileSystem) (path : String)
  | text (fs : FileSystem) (source path : String)

namespace Call

/-- What a session does on a call. -/
def parse : Call → SessionM Section
  | file fs path => parseFile fs path
  | text fs source path => parseText fs source path

/-- What a session of its own answers to a call. -/
def answer (mode : Mode) : Call → Except ParseError Section
  | file fs path => LayeredConfig.parseFile fs mode path
  | text fs source path => LayeredConfig.parseText fs mode source path

end Call

/-- One session's answers to calls one after the other. A call that fails is an answer too. -/
def answerAll (calls : List Call) : StateM Session (List (Except ParseError Section)) :=
  calls.mapM fun call => call.parse.run

/-! ## One call -/

/-- The frames that a session has do not matter to a text, and are gone afterwards. -/
theorem run_parseText (fs : FileSystem) (text path : String) (s : Session) :
    (parseText fs text path).run s =
      (LayeredConfig.parseText fs s.mode text path, { s with frames := [] }) := by
  have hbalanced : Balanced (parseDocument fs (fs.contents.size + 1) path text >>= fun root =>
      liftExcept (finish root)) :=
    (balanced_parseDocument fs _ path text).bind fun _ => .liftExcept _
  apply Prod.ext
  · show outcome (parseText fs text path) s = _
    rfl
  · show ((parseDocument fs (fs.contents.size + 1) path text >>= fun root =>
      liftExcept (finish root)).run { s with frames := [] }).2 = _
    exact hbalanced _

/-- A call answers what a session of its own would, and leaves the session without frames. -/
theorem Call.run_parse (call : Call) (s : Session) :
    call.parse.run s = (call.answer s.mode, { s with frames := [] }) := by
  cases call with
  | text fs source path => exact run_parseText fs source path s
  | file fs path =>
    simp only [parse, answer, LayeredConfig.parseFile, Session.parseFile]
    cases hfetch : fs.fetch path with
    | error cause => rfl
    | ok file => exact run_parseText fs file.2 file.1 { s with frames := [] }

/-! ## Every sequence of calls -/

/-- The calls after the first one are answered in a session without frames. -/
theorem run_answerAll_cons (call : Call) (calls : List Call) (s : Session) :
    ((answerAll (call :: calls)).run s).1 =
      call.answer s.mode :: ((answerAll calls).run { s with frames := [] }).1 := by
  have hcall := call.run_parse s
  rw [answerAll, List.mapM_cons]
  show (call.parse.run s).1 :: ((answerAll calls).run (call.parse.run s).2).1 = _
  rw [hcall]

/-- A document leaves the frames of its session as it found them, whether it succeeds or fails and
at whatever depth, so one session answers a sequence of calls as sessions of their own would. -/
theorem sessions_are_reusable :
    (∀ (fs : FileSystem) (depth : Nat) (path text : String) (s : Session),
      ((parseDocument fs depth path text).run s).2 = s) ∧
    ∀ (calls : List Call) (s : Session),
      ((answerAll calls).run s).1 = calls.map (Call.answer s.mode) := by
  refine ⟨balanced_parseDocument, fun calls s => ?_⟩
  induction calls generalizing s with
  | nil => rfl
  | cons call calls ih => rw [run_answerAll_cons, ih, List.map_cons]

end LayeredConfig.Session
