import DynScript.Cli.Line

/-
  What is known of line editors. Lines without keys that edit
  are delivered as they are typed: this is all that the program
  relies on, and the editor of inputs that are no terminal is
  one that does so.

  Key definitions include:
    * `Cli.typed`
    * `Cli.Plain`
    * `Cli.Editor.DeliversPlain`

  Main statements include:
    * `Cli.settle_of_no_backspace`
    * `Cli.deliversPlain_pipeEditor`
-/

namespace DynScript.Cli

------------------------------------------------------------
-- Plain lines
------------------------------------------------------------

/- The input that consists of some lines, each with its end. -/
def typed
    (ls : List String) : String :=
  ls.foldr (fun line rest => line ++ "\n" ++ rest) ""

/- A line that is one line and has no key in it that edits. -/
structure Plain
    (line : String) : Prop where
  noFeed : '\n' ∉ line.toList
  noReturn : line.toList.getLast? ≠ some '\r'
  noBackspace : '\x08' ∉ line.toList

/- An editor that delivers plain lines as they are typed. -/
def Editor.DeliversPlain
    (editor : Editor) : Prop :=
  ∀ ls : List String, (∀ line ∈ ls, Plain line) →
    editor (typed ls) = ls.map some

------------------------------------------------------------
-- The editor of inputs that are no terminal
------------------------------------------------------------

/- Without a backspace, all that is typed stays. -/
theorem foldlM_press
    {clusters : List (List Char)}
    (h : ['\x08'] ∉ clusters)
    (t : Typed) :
    ∃ widths, clusters.foldlM Typed.press t =
      some ⟨clusters.flatten.reverse ++ t.chars, widths⟩ := by
  induction clusters generalizing t with
  | nil => exact ⟨t.widths, rfl⟩
  | cons cluster clusters ih =>
      have hFirst : cluster ≠ ['\x08'] :=
        fun hEq => h (hEq ▸ List.mem_cons_self)
      have hOthers : ['\x08'] ∉ clusters :=
        fun hMem => h (List.mem_cons_of_mem cluster hMem)
      have hPress : t.press cluster =
          some ⟨cluster.reverse ++ t.chars, width cluster :: t.widths⟩ :=
        if_neg hFirst
      rcases ih hOthers ⟨_, _⟩ with ⟨widths, hRest⟩
      refine ⟨widths, ?_⟩
      rw [List.foldlM_cons, hPress, List.flatten_cons,
        List.reverse_append, List.append_assoc]
      exact hRest

/- A line without a backspace comes to what is typed. -/
theorem settle_of_no_backspace
    {line : List Char}
    (h : '\x08' ∉ line) :
    settle line = some (String.ofList line) := by
  have hClusters : ['\x08'] ∉ Text.clusters line := by
    intro hMem
    apply h
    rw [← Text.flatten_clusters line]
    exact List.mem_flatten.mpr ⟨_, hMem, List.mem_cons_self⟩
  rcases foldlM_press hClusters .empty with ⟨widths, hTyped⟩
  rw [settle, hTyped, Text.flatten_clusters]
  simp [Typed.empty]

/- Only a carriage return at the end is dropped. -/
theorem dropReturn_of_getLast?
    {line : List Char}
    (h : line.getLast? ≠ some '\r') :
    dropReturn line = line := by
  rw [List.getLast?_eq_head?_reverse] at h
  unfold dropReturn
  split
  · next hReverse =>
    rw [hReverse] at h
    exact absurd rfl h
  · rfl

/- A line is taken up to its line feed. -/
theorem linesFrom_append_line
    {cs : List Char}
    (hLine : '\n' ∉ cs)
    (line ds : List Char) :
    linesFrom line (cs ++ '\n' :: ds) =
      settle (dropReturn (line.reverse ++ cs)) :: linesFrom [] ds := by
  induction cs generalizing line with
  | nil => rw [List.nil_append, linesFrom, List.append_nil]
  | cons c cs ih =>
      have hChar : c ≠ '\n' :=
        fun hEq => hLine (hEq ▸ List.mem_cons_self)
      have hOthers : '\n' ∉ cs :=
        fun hMem => hLine (List.mem_cons_of_mem c hMem)
      rw [List.cons_append, linesFrom, ih hOthers, List.reverse_cons,
        List.append_assoc]
      · rfl
      · exact hChar

/- A line of an input, with the lines behind it. -/
theorem pipeEditor_typed_cons
    {line : String}
    (hFeed : '\n' ∉ line.toList)
    (hReturn : line.toList.getLast? ≠ some '\r')
    (ls : List String) :
    pipeEditor (typed (line :: ls)) =
      settle line.toList :: pipeEditor (typed ls) := by
  have hText : (typed (line :: ls)).toList =
      line.toList ++ '\n' :: (typed ls).toList := by
    rw [typed, List.foldr_cons, String.toList_append,
      String.toList_append, List.append_assoc]
    rfl
  rw [pipeEditor, hText, linesFrom_append_line hFeed,
    List.reverse_nil, List.nil_append, dropReturn_of_getLast? hReturn]
  rfl

/- What is piped in is delivered line by line. -/
theorem deliversPlain_pipeEditor : pipeEditor.DeliversPlain := by
  intro ls hLines
  induction ls with
  | nil => rfl
  | cons line ls ih =>
      have hLine := hLines line List.mem_cons_self
      have hOthers := ih fun other hMem =>
        hLines other (List.mem_cons_of_mem line hMem)
      rw [pipeEditor_typed_cons hLine.noFeed hLine.noReturn, hOthers,
        settle_of_no_backspace hLine.noBackspace, List.map_cons,
        String.ofList_toList]

end DynScript.Cli
