import QueryEditor.Interpreter.Session
import QueryEditor.Proofs.Console.Reading

/-!
# Output in chunks

Whoever follows an output gets it in chunks and takes up each line as soon as it ends. What is made
of the whole output is its transcript. It depends on the bytes alone: what is carried over from one
chunk to the next, the bytes that wait and the answer so far, is all that matters for what follows.

* `Transcript`, `transcript`: what is made of an output;
* `Response.takeAll_append`, `follow_append`: two pieces one after the other;
* `Session.push_append`, `Session.pushChunks_eq`: chunks that arrive in a session;
* **`transcript_eq`**: how the output is cut makes no difference.
-/

namespace QueryEditor

/-- What is made of an output: for each line the line as it is kept and what it says about the
answer, nothing for noise; the text of the answer; and the tables that the text lists. -/
structure Transcript where
  steps : List (Option (Text × Progress))
  text : Text
  tables : List Table
  deriving DecidableEq, Repr

namespace Response

def take (p : Text) (r : Response) (line : Text) : Response × Option (Text × Progress) :=
  match Noise.clean p line with
  | none => (r, none)
  | some cleaned =>
    let (r, progress) := r.accept p cleaned
    (r, some (cleaned, progress))

def takeAll (p : Text) (r : Response) : List Text → Response × List (Option (Text × Progress))
  | [] => (r, [])
  | line :: lines =>
    let (r, step) := r.take p line
    let (r, steps) := takeAll p r lines
    (r, step :: steps)

theorem takeAll_append (p : Text) (r : Response) (lines lines' : List Text) :
    r.takeAll p (lines ++ lines') = (((r.takeAll p lines).1.takeAll p lines').1,
      (r.takeAll p lines).2 ++ ((r.takeAll p lines).1.takeAll p lines').2) := by
  induction lines generalizing r with
  | nil => rfl
  | cons line lines ih => simp [takeAll, ih]

end Response

/-- An output followed from some point on: the lines of each chunk are taken up before the next
chunk comes, and what waits at the end is the last line. -/
def follow (p : Text) (s : Splitter) (r : Response) :
    List (List UInt8) → Response × List (Option (Text × Progress))
  | [] => r.takeAll p s.finish.2.toList
  | chunk :: chunks =>
    let (s, lines) := s.push chunk
    let (r, steps) := r.takeAll p lines
    let (r, steps') := follow p s r chunks
    (r, steps ++ steps')

def transcript (p : Text) (chunks : List (List UInt8)) : Transcript :=
  let (r, steps) := follow p (.start p) .start chunks
  ⟨steps, r.text, Table.listed r.text⟩

theorem follow_cons (p : Text) (s : Splitter) (r : Response) (chunk : List UInt8)
    (chunks : List (List UInt8)) : follow p s r (chunk :: chunks) =
      ((follow p (s.push chunk).1 (r.takeAll p (s.push chunk).2).1 chunks).1,
        (r.takeAll p (s.push chunk).2).2 ++
          (follow p (s.push chunk).1 (r.takeAll p (s.push chunk).2).1 chunks).2) := rfl

theorem follow_append (p : Text) (s : Splitter) (r : Response) (as bs : List UInt8)
    (chunks : List (List UInt8)) :
    follow p s r ((as ++ bs) :: chunks) = follow p s r (as :: bs :: chunks) := by
  simp only [follow_cons, Splitter.push_append, Response.takeAll_append, List.append_assoc]

theorem follow_nil_cons (p : Text) (s : Splitter) (r : Response) (chunks : List (List UInt8)) :
    follow p s r ([] :: chunks) = follow p s r chunks := rfl

/-- **An output is followed as the one chunk** that its chunks form. -/
theorem follow_eq (p : Text) (s : Splitter) (r : Response) (chunks : List (List UInt8)) :
    follow p s r chunks = follow p s r [chunks.flatten] := by
  induction chunks generalizing s r with
  | nil => rw [List.flatten_nil, follow_nil_cons]
  | cons chunk chunks ih =>
    calc follow p s r (chunk :: chunks)
        = follow p s r [chunk, chunks.flatten] := by rw [follow_cons, ih, ← follow_cons]
      _ = follow p s r [(chunk :: chunks).flatten] := by
        rw [← follow_append, List.flatten_cons]

namespace Session

def pushChunks (s : Session) (o : Stream) (chunks : List (List UInt8)) : Session :=
  chunks.foldl (fun s chunk => s.push o chunk) s

theorem push_append (s : Session) (o : Stream) (as bs : List UInt8) :
    s.push o (as ++ bs) = (s.push o as).push o bs := by
  cases o <;>
    simp only [push, enqueue, Splitter.push_append, List.filterMap_append, List.append_assoc]

theorem pushChunks_eq (s : Session) (o : Stream) (chunks : List (List UInt8)) :
    s.pushChunks o chunks = s.push o chunks.flatten := by
  induction chunks generalizing s with
  | nil => cases o <;> simp [pushChunks, push, Splitter.push, enqueue]
  | cons chunk chunks ih =>
    rw [List.flatten_cons, push_append, ← ih]
    rfl

end Session

/-- **How an output is cut makes no difference**, neither to its transcript nor to a session in
which it arrives. -/
theorem transcript_eq (p : Text) {chunks chunks' : List (List UInt8)}
    (h : chunks.flatten = chunks'.flatten) :
    transcript p chunks = transcript p chunks' ∧
      ∀ (s : Session) (o : Stream), s.pushChunks o chunks = s.pushChunks o chunks' := by
  constructor
  · have hfollow : follow p (.start p) .start chunks = follow p (.start p) .start chunks' := by
      rw [follow_eq, h, ← follow_eq]
    simp only [transcript, hfollow]
  · intro s o
    rw [Session.pushChunks_eq, h, ← Session.pushChunks_eq]

def cutInside : List (List UInt8) :=
  [[0x61, 0xC3], [0xA9, 0x0D], [0x0A, 0x1B], [0x5B, 0x6D, 0x3E], [0x3E], [0x3E]]

theorem transcript_eq_cutInside : cutInside.flatten = [cutInside.flatten].flatten ∧
    transcript ">>>".toList cutInside = transcript ">>>".toList [cutInside.flatten] ∧
      ∀ (s : Session) (o : Stream),
        s.pushChunks o cutInside = s.pushChunks o [cutInside.flatten] := by
  have h : cutInside.flatten = [cutInside.flatten].flatten := rfl
  exact ⟨h, transcript_eq ">>>".toList h⟩

end QueryEditor
