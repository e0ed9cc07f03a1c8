import ScriptLang.Proofs.Interaction.Lines
import ScriptLang.Proofs.Output.Limits

namespace ScriptLang.Session

def writtenSince (m n : Machine) : ByteArray :=
  n.sink.written.extract m.sink.written.size n.sink.written.size

/-- What is seen of units run in order, with a prompt before each. -/
def rounds (fuel : Nat) : List String → Machine → List Event
  | [], _ => []
  | source :: sources, m =>
    let r := run fuel source m
    .prompt "> " :: .printed (writtenSince m r.2) :: r.1.diagnostics.map .reported ++
      rounds fuel sources r.2

def closing (whole : Bool) : List Event :=
  if whole then [.prompt "> ", .prompt "\n"] else [.prompt "> "]

def closed (whole : Bool) : LoopEnd :=
  if whole then .endOfInput else .notText

def Event.bytes : Event → ByteArray
  | .printed bytes => bytes
  | _ => .empty

def printedBytes : List Event → ByteArray
  | [] => .empty
  | e :: es => e.bytes ++ printedBytes es

def Ending.isExhausted : Ending → Bool
  | .exhausted => true
  | _ => false

section Turn

variable {fuel : Nat} {m : Machine}

theorem turn_eq {line : List UInt8} {source : String} (hline : decode? line = some source)
    (h : (run fuel source m).1.isExhausted = false) :
    turn fuel line (m.into m.sink.drained) =
      .ok (.printed (writtenSince m (run fuel source m).2) ::
          (run fuel source m).1.diagnostics.map .reported,
        (run fuel source m).2.into (run fuel source m).2.sink.drained) := by
  obtain ⟨ending, n, out, hrun⟩ := Output.run_appends fuel source m m.sink
  have hself : run fuel source m = (ending, n.into (m.sink.write out)) := hrun m.sink rfl rfl
  have hdrained : run fuel source (m.into m.sink.drained) =
      (ending, n.into (m.sink.drained.write out)) := hrun m.sink.drained rfl rfl
  have hsince : writtenSince m (n.into (m.sink.write out)) =
      (m.sink.drained.write out).written := by
    change (m.sink.written ++ m.sink.accepted out).extract m.sink.written.size
      (m.sink.written ++ m.sink.accepted out).size = ByteArray.empty ++ m.sink.accepted out
    rw [ByteArray.extract_append_eq_right rfl ByteArray.size_append, ByteArray.empty_append]
  rw [hself] at h ⊢
  simp only [turn, hline, hdrained, hsince]
  cases ending with
  | exhausted => cases h
  | _ => rfl

/-- The loop sees the rounds of its units, and how it ends is told by what is left. -/
theorem interact_eq (ls : List (List UInt8))
    (h : ∀ e ∈ (runAll ((texts ls).map (fuel, ·)) m).1, e.isExhausted = false) :
    interact fuel ls (m.into m.sink.drained) =
      (rounds fuel (texts ls) m ++ closing ((texts ls).length == ls.length),
        closed ((texts ls).length == ls.length)) := by
  induction ls generalizing m with
  | nil => rfl
  | cons line ls ih =>
    cases hline : decode? line with
    | none => simp [interact, turn, texts, hline, rounds, closing, closed]
    | some source =>
      rw [texts, hline] at h
      simp only [List.map_cons, runAll, List.mem_cons, forall_eq_or_imp] at h
      rw [interact, turn_eq hline h.1]
      simp only [ih h.2, texts, hline, rounds]
      simp

end Turn

section Channels

variable (fuel : Nat) (sources : List String) (m : Machine)

theorem channel_append (f : Event → String) (es es' : List Event) :
    channel f (es ++ es') = channel f es ++ channel f es' := by
  unfold channel
  rw [List.map_append, String.join_append]

theorem rounds_prompts :
    channel Event.promptText (rounds fuel sources m) =
      String.join (List.replicate sources.length "> ") := by
  induction sources generalizing m with
  | nil => rfl
  | cons source sources ih =>
    have hreported : ∀ ds : List Diagnostic,
        channel Event.promptText (ds.map Event.reported) = "" := by
      intro ds
      induction ds with
      | nil => rfl
      | cons d ds ih =>
        rw [List.map_cons, channel, List.map_cons, String.join_cons]
        exact (String.empty_append).trans ih
    rw [rounds, List.cons_append, List.cons_append, channel, List.map_cons, List.map_cons,
      String.join_cons, String.join_cons, List.length_cons, List.replicate_succ, String.join_cons]
    have htail := channel_append Event.promptText
      ((run fuel source m).1.diagnostics.map Event.reported)
      (rounds fuel sources (run fuel source m).2)
    rw [hreported, ih, String.empty_append] at htail
    rw [← htail]
    exact congrArg ("> " ++ ·) String.empty_append

theorem rounds_reports :
    channel Event.reportedText (rounds fuel sources m) =
      String.join ((runAll (sources.map (fuel, ·)) m).1.flatMap fun e =>
        e.diagnostics.map fun d => d.text ++ "\n") := by
  induction sources generalizing m with
  | nil => rfl
  | cons source sources ih =>
    simp only [rounds, List.map_cons, runAll, List.flatMap_cons, String.join_append, ← ih]
    rw [List.cons_append, List.cons_append, channel, List.map_cons, List.map_cons,
      String.join_cons, String.join_cons, List.map_append, String.join_append, List.map_map]
    rfl

theorem writtenSince_append (source : String) :
    m.sink.written ++ writtenSince m (run fuel source m).2 =
      (run fuel source m).2.sink.written := by
  obtain ⟨ending, n, out, hrun⟩ := Output.run_appends fuel source m m.sink
  have hself : run fuel source m = (ending, n.into (m.sink.write out)) := hrun m.sink rfl rfl
  have hwritten : (run fuel source m).2.sink.written = m.sink.written ++ m.sink.accepted out :=
    congrArg (fun r => r.2.sink.written) hself
  rw [writtenSince, hwritten, ByteArray.extract_append_eq_right rfl ByteArray.size_append]

theorem rounds_printed :
    m.sink.written ++ printedBytes (rounds fuel sources m) =
      (runAll (sources.map (fuel, ·)) m).2.sink.written := by
  induction sources generalizing m with
  | nil => exact ByteArray.append_empty
  | cons source sources ih =>
    have hreported : ∀ (ds : List Diagnostic) es,
        printedBytes (ds.map Event.reported ++ es) = printedBytes es := by
      intro ds es
      induction ds with
      | nil => rfl
      | cons d ds ih => exact ByteArray.empty_append.trans ih
    have hround : printedBytes (rounds fuel (source :: sources) m) =
        writtenSince m (run fuel source m).2 ++
          printedBytes (rounds fuel sources (run fuel source m).2) := by
      rw [rounds, List.cons_append, List.cons_append, printedBytes, printedBytes, hreported]
      exact ByteArray.empty_append
    rw [hround, ← ByteArray.append_assoc, writtenSince_append, ih]
    rfl

end Channels

/-- The loop runs the lines up to the first that is not text, each as a unit of its own on the
machine that those before it left, however they ended. Each has its prompt before it and its
diagnostics behind it; after the last there is one more prompt, and the end of the line if the input
was read to its end. -/
theorem loop_folds_units (fuel : Nat) (input : List UInt8) (m : Machine)
    (h : ∀ e ∈ (runAll ((texts (lines input)).map (fuel, ·)) m).1, e.isExhausted = false) :
    let sources := texts (lines input)
    let whole := sources.length == (lines input).length
    let fold := runAll (sources.map (fuel, ·)) m
    let loop := interact fuel (lines input) (m.into m.sink.drained)
    lines input = linesOf (input.splitOn 10) ∧
      (∃ rest, (lines input).map decode? = sources.map some ++ rest ∧
        ∀ o ∈ rest.head?, o = none) ∧
      loop.1 = rounds fuel sources m ++ closing whole ∧
      m.sink.written ++ printedBytes loop.1 = fold.2.sink.written ∧
      channel Event.reportedText loop.1 =
        String.join (fold.1.flatMap fun e => e.diagnostics.map fun d => d.text ++ "\n") ∧
      channel Event.promptText loop.1 =
        String.join (List.replicate (sources.length + 1) "> ") ++ (if whole then "\n" else "") ∧
      loop.2 = if whole then .endOfInput else .notText := by
  intro sources whole fold loop
  have hloop : loop = (rounds fuel sources m ++ closing whole, closed whole) := interact_eq _ h
  have hprinted : ∀ es, printedBytes (es ++ closing whole) = printedBytes es := by
    intro es
    induction es with
    | nil => cases whole <;> rfl
    | cons e es ih => exact congrArg (e.bytes ++ ·) ih
  have hreported : channel Event.reportedText (closing whole) = "" := by cases whole <;> rfl
  have hprompts : channel Event.promptText (closing whole) =
      "> " ++ (if whole then "\n" else "") := by cases whole <;> rfl
  rw [hloop]
  refine ⟨lines_eq input, texts_prefix (lines input), rfl, ?_, ?_, ?_, rfl⟩
  · rw [hprinted]
    exact rounds_printed fuel sources m
  · rw [channel_append, hreported, rounds_reports]
    exact String.append_empty
  · rw [channel_append, rounds_prompts, hprompts, ← String.append_assoc, List.replicate_succ',
      String.join_append]
    rfl

theorem loop_stops_at_bytes :
    let input : List UInt8 := [59, 13, 10, 120, 59, 10, 255, 10, 49, 59]
    let m := Machine.start [] .unlimited
    texts (lines input) = [";", "x;"] ∧
      (∀ e ∈ (runAll ((texts (lines input)).map (3, ·)) m).1, e.isExhausted = false) ∧
      (interact 3 (lines input) (m.into m.sink.drained)).2 = .notText := by
  intro input m
  have htexts : texts (lines input) = [";", "x;"] := by decide +kernel
  have hends : ∀ e ∈ (runAll ((texts (lines input)).map (3, ·)) m).1, e.isExhausted = false := by
    rw [htexts]
    decide +kernel
  have hall := loop_folds_units 3 input m hends
  have hwhole : ((texts (lines input)).length == (lines input).length) = false := by
    rw [htexts]
    decide +kernel
  refine ⟨htexts, hends, ?_⟩
  rw [hall.2.2.2.2.2.2, hwhole]
  rfl

end ScriptLang.Session
