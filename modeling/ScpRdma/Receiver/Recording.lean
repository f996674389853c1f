import ScpRdma.Receiver.Calls
import ScpRdma.Receiver.FileCalls

/-!
# A record of the file calls

`recordedCalls` answers like `fileCalls` and keeps a record of the calls, their answers and the
files that they met. A condition on what the calls answered is a condition on the record.
-/
namespace ScpRdma.Receiver
open Foundations

/-- A file call with its answer, and the files that it met. -/
structure Answered where
  fs : FileSystem
  call : FileOp
  answer : FileResponse call

/-- The files, and the calls so far. -/
abbrev Recorded := FileSystem × List Answered

def recordedCalls : Semantics fileSignature Recorded where
  allow o s r := FileCall.allow o s.1 r
  next o s r := (FileCall.next o s.1 r, s.2 ++ [⟨s.1, o, r⟩])

/-- The call was made, and answered so. -/
def Answers (log : List Answered) (o : FileOp) (r : FileResponse o) : Prop := ∃ fs, ⟨fs, o, r⟩ ∈ log

/-- The path of a `mkdir` that did not fail, or failed with `EEXIST`. -/
def Answered.made? : Answered → Option Path
  | ⟨_, .mkdir path, .created⟩ | ⟨_, .mkdir path, .exists _⟩ => some path
  | _ => none

/-- The paths of these, in order. -/
def madePaths (log : List Answered) : List Path := log.filterMap Answered.made?

variable {α β : Type} {fs fs' : FileSystem} {calls calls' : List Answered} {a : α}

theorem outcome_ask {F : Type} {M : Semantics fileSignature F} {os os' : F} {o : FileOp}
    {r : FileResponse o} (h : Program.Outcome M (Files.ask o) os r os') :
    M.allow o os r ∧ os' = M.next o os r := by
  cases h with
  | op r hr h =>
    cases h
    exact ⟨hr, rfl⟩

theorem outcome_done {F : Type} {M : Semantics fileSignature F} {os os' : F} {a b : α}
    (h : Program.Outcome M (.done a) os b os') : os = os' := by
  cases h
  rfl

/-- The files do not depend on the record. -/
theorem forgets {p : Files α} {s t : Recorded} (h : Program.Outcome recordedCalls p s a t) :
    Program.Outcome fileCalls p s.1 a t.1 := by
  induction h with
  | done => exact .done
  | op r hr _ ih => exact .op r hr ih

/-- What happens to the files can be recorded. -/
theorem remembers {p : Files α} (h : Program.Outcome fileCalls p fs a fs')
    (calls : List Answered) :
    ∃ log, Program.Outcome recordedCalls p (fs, calls) a (fs', calls ++ log) := by
  induction h generalizing calls with
  | done => exact ⟨[], (List.append_nil calls).symm ▸ .done⟩
  | @op o k fs a fs' r hr _ ih =>
    obtain ⟨log, hlog⟩ := ih (calls ++ [⟨fs, o, r⟩])
    rw [List.append_assoc] at hlog
    exact ⟨_, .op r hr hlog⟩

/-- What holds of the files holds with a record and without it. -/
theorem ensures_recorded {p : Files α} {Q : α → FileSystem → Prop} {s : Recorded} :
    Program.Ensures recordedCalls p (fun a t => Q a t.1) s ↔ Program.Ensures fileCalls p Q s.1 := by
  induction p generalizing s with
  | done a => rfl
  | op o k ih => exact forall₂_congr fun r _ => ih r
  | call c k => cases c

theorem Calls.all (p : Files α) : Calls (fun _ => True) p := by
  induction p with
  | done => trivial
  | op o k ih => exact ⟨trivial, ih⟩
  | call c k => cases c

/-- What is recorded of a part that makes these calls only. -/
theorem Calls.recorded {P : FileOp → Prop} {p : Files α} {s t : Recorded} (hp : Calls P p)
    (h : Program.Outcome recordedCalls p s a t) :
    ∃ log, t.2 = s.2 ++ log ∧ ∀ e ∈ log, P e.call := by
  induction h with
  | done => exact ⟨[], (List.append_nil _).symm, by simp⟩
  | @op o k s a t r _ _ ih =>
    obtain ⟨log, hlog, hall⟩ := ih (hp.2 r)
    refine ⟨⟨s.1, o, r⟩ :: log, ?_, List.forall_mem_cons.mpr ⟨hp.1, hall⟩⟩
    rw [hlog]
    exact List.append_assoc ..

/-- An answer of a recorded call is one of these, if the calls around it are others. -/
theorem answers_append {log log' : List Answered} {o : FileOp} {r : FileResponse o} :
    Answers (log ++ log') o r ↔ Answers log o r ∨ Answers log' o r := by
  simp only [Answers, List.mem_append, exists_or]

theorem not_answers {P : FileOp → Prop} {log : List Answered} {o : FileOp} {r : FileResponse o}
    (h : ∀ e ∈ log, P e.call) (ho : ¬ P o) : ¬ Answers log o r :=
  fun ⟨_, hmem⟩ => ho (h _ hmem)

theorem answers_singleton {fs : FileSystem} {o : FileOp} {r r' : FileResponse o} :
    Answers [⟨fs, o, r⟩] o r' ↔ r' = r := by
  constructor
  · rintro ⟨_, hmem⟩
    cases List.mem_singleton.mp hmem
    rfl
  · rintro rfl
    exact ⟨fs, List.mem_singleton_self _⟩

/-- A chunk is written with two calls. -/
theorem writeChunk_recorded {fd : Handle} {off : Nat} {data : Bytes} {s t : Recorded} {u : Unit}
    (h : Program.Outcome recordedCalls (writeChunk fd off data) s u t) :
    ∃ sought written g, FileCall.allow (.lseek fd off) s.1 sought ∧
      g = FileCall.next (.lseek fd off) s.1 sought ∧ FileCall.allow (.write fd data) g written ∧
      t = (FileCall.next (.write fd data) g written,
        s.2 ++ [⟨s.1, .lseek fd off, sought⟩, ⟨g, .write fd data, written⟩]) := by
  obtain ⟨sought, s₁, hseek, hrest⟩ := Program.Outcome.of_bind h
  obtain ⟨written, s₂, hwrite, hdone⟩ := Program.Outcome.of_bind hrest
  cases hdone
  obtain ⟨hsought, rfl⟩ := outcome_ask hseek
  obtain ⟨hwritten, rfl⟩ := outcome_ask hwrite
  refine ⟨sought, written, _, hsought, rfl, hwritten, ?_⟩
  exact congrArg (Prod.mk _) (List.append_assoc ..)

/-- What the two calls answered. -/
theorem answers_lseek {fd : Handle} {off : Nat} {data : Bytes} {fs g : FileSystem}
    {sought r : Bool} {written : Option Nat} :
    Answers [⟨fs, .lseek fd off, sought⟩, ⟨g, .write fd data, written⟩] (.lseek fd off) r ↔
      r = sought := by
  constructor
  · rintro ⟨_, hmem⟩
    rcases List.mem_cons.mp hmem with hfirst | hlast
    · cases hfirst
      rfl
    · cases List.mem_singleton.mp hlast
  · rintro rfl
    exact ⟨fs, List.mem_cons_self ..⟩

end ScpRdma.Receiver
