import Runbook.Proofs.Digits
import Runbook.Proofs.Escaping
import Runbook.Proofs.Running
import Runbook.Run.Flow

/-!
# What consoles take

A console need not take every line of markup. What is relied on is that it takes markup that nests.
Of the lines of a run only the second above it may be other markup, as the names of connections
stand in it as they are; every other text of the user is escaped.

* `Console.TakesNested`: what is relied on of a console.
* `isNested_settingsLine`: the line with the names of connections nests exactly if the names do.
* `IsTitled.showHeader`: when the lines above a run are shown.
* `Notice.lines_nested`: **every line of the other notices of a run nests**.
-/

namespace Runbook

open Runbook.Text Runbook.Display

/-- **What is relied on of a console**: it takes all markup that nests. Whether it takes other
markup is left open. -/
def Display.Console.TakesNested (c : Console) : Prop := ∀ s, IsNested s → c.print s = .ok ()

theorem Display.Console.showLines_ok {c : Console} (hc : c.TakesNested) {lines : List Line}
    (h : ∀ s, Line.markup s ∈ lines → IsNested s) : c.showLines lines = .ok () := by
  induction lines with
  | nil => rfl
  | cons line lines ih =>
    have hline : c.showLine line = .ok () := by
      cases line with
      | markup s => exact hc s (h s List.mem_cons_self)
      | table title columns rows => rfl
      | panel title content => rfl
    show (c.showLine line >>= fun _ => c.showLines lines) = .ok ()
    rw [hline]
    exact ih fun s hs => h s (List.mem_cons_of_mem line hs)

theorem isPlain_of_isAsciiDigit {c : Char} (h : isAsciiDigit c = true) : isPlain c = true := by
  by_contra hplain
  simp only [isPlain, Bool.not_eq_true, Bool.and_eq_false_iff, bne_eq_false_iff_eq] at hplain
  rcases hplain with rfl | rfl
  · cases h
  · cases h

theorem neutral_digits (n : Nat) : Neutral (digitsOfNat n) :=
  .plain fun _ hc => isPlain_of_isAsciiDigit (isAsciiDigit_of_mem_digitsOfNat hc)

/-! ### Telling -/

/-- The world with something told. -/
def World.told (w : World) (n : Notice) : World :=
  { w with notices := w.notices ++ [n] }

theorem Run.tell_ok {n : Notice} {lines : List Line} (h : n.lines = .ok lines) (w : World) :
    Run.tell n w = (.ok (), w.told n) := by
  rw [Run.tell, h]
  rfl

theorem Run.tellHeader_ok {plan : Plan} {w : World} (h : w.console.showHeader plan = .ok ()) :
    Run.tellHeader plan w = (.ok (), w.told (.header plan)) := by
  rw [Run.tellHeader, h]
  rfl

theorem Run.tellHeader_error {plan : Plan} {w : World} {e : Error}
    (h : w.console.showHeader plan = .error e) : Run.tellHeader plan w = (.error e, w) := by
  rw [Run.tellHeader, h]

/-! ### The lines above a run -/

theorem Display.Notice.nameTexts_ok {vs : List Value} (h : ∀ v ∈ vs, ∃ s, v.asText? = some s)
    (position : Nat) : nameTexts position vs = .ok (vs.filterMap (·.asText?)) := by
  induction vs generalizing position with
  | nil => rfl
  | cons v vs ih =>
    obtain ⟨s, hs⟩ := h v List.mem_cons_self
    have hrest := ih (fun u hu => h u (List.mem_cons_of_mem v hu)) (position + 1)
    rw [nameTexts, hs, List.filterMap_cons, hs]
    simp only [hrest]
    rfl

namespace Plan

/-- A plan with a title: its name is text, and so are the names of its connections. -/
structure IsTitled (plan : Plan) : Prop where
  name : ∃ s, plan.name.asText? = some s
  connections : ∀ c ∈ plan.connections, ∃ s, c.1.asText? = some s

/-- The names of the connections of a plan. -/
def connectionNames (plan : Plan) : List String :=
  (plan.connections.map (·.1)).filterMap (·.asText?)

/-- The names of the connections as they stand above a run. -/
def shownNames (plan : Plan) : String := ", ".intercalate (Notice.sortTexts plan.connectionNames)

variable {plan : Plan}

theorem neutral_tasksText (plan : Plan) :
    Neutral ("Tasks: " ++ natText plan.tasks.length).toList := by
  rw [String.toList_append, toList_natText]
  exact (Neutral.of_all (by decide)).append (neutral_digits _)

theorem neutral_policyText (plan : Plan) :
    Neutral ("Missing variables: " ++ plan.policy.text).toList := by
  cases plan.policy <;> exact .of_all (by decide)

/-- **The line of the settings** has text without tags in front of the names of connections. -/
theorem exists_settingsLine (plan : Plan) : ∃ front, Neutral front ∧
    (Notice.settingsLine plan plan.connectionNames).toList = front ++ plan.shownNames.toList := by
  have htasks := plan.neutral_tasksText
  have hpolicy := plan.neutral_policyText
  have hbar : Neutral " | ".toList := .of_all (by decide)
  have hlabel : Neutral "Connections: ".toList := .of_all (by decide)
  unfold Notice.settingsLine shownNames
  generalize "Tasks: " ++ natText plan.tasks.length = tasks at htasks ⊢
  generalize "Missing variables: " ++ plan.policy.text = policy at hpolicy ⊢
  cases plan.connectionNames with
  | nil =>
    refine ⟨(tasks ++ " | " ++ policy).toList, ?_, ?_⟩
    · rw [String.toList_append, String.toList_append]
      exact (htasks.append hbar).append hpolicy
    · have hsort : Notice.sortTexts [] = [] := List.mergeSort_nil
      rw [hsort]
      exact (List.append_nil _).symm
  | cons name names =>
    refine ⟨(tasks ++ " | " ++ policy ++ " | " ++ "Connections: ").toList, ?_, ?_⟩
    · rw [String.toList_append, String.toList_append, String.toList_append,
        String.toList_append]
      exact (((htasks.append hbar).append hpolicy).append hbar).append hlabel
    · show (tasks ++ " | " ++ policy ++ " | " ++ ("Connections: " ++ _)).toList = _
      simp only [String.toList_append, List.append_assoc]

/-- **The line of the settings nests exactly if the names of the connections do.** -/
theorem isNested_settingsLine (plan : Plan) :
    IsNested (Notice.settingsLine plan plan.connectionNames) ↔ IsNested plan.shownNames := by
  obtain ⟨front, hfront, hline⟩ := plan.exists_settingsLine
  rw [IsNested, hline, hfront, IsNested]

/-- **The lines above a run**: the name of the plan is escaped, and the names of its connections
stand as they are. -/
theorem IsTitled.header_lines (h : plan.IsTitled) : ∃ name, plan.name.asText? = some name ∧
    (Notice.header plan).lines = .ok [blankLine,
      .markup ("[bold]Workflow:[/bold] " ++ escapeMarkup name),
      .markup (Notice.settingsLine plan plan.connectionNames), blankLine] := by
  obtain ⟨name, hname⟩ := h.name
  have hnames : ∀ v ∈ plan.connections.map (·.1), ∃ s, v.asText? = some s := by
    intro v hv
    obtain ⟨c, hc, rfl⟩ := List.mem_map.1 hv
    exact h.connections c hc
  refine ⟨name, hname, ?_⟩
  rw [Notice.lines, Notice.headerLines, Notice.escaped, hname, Notice.nameTexts_ok hnames 0]
  rfl

/-- A name above a run nests, whatever it is. -/
theorem isNested_title (name : String) :
    IsNested ("[bold]Workflow:[/bold] " ++ escapeMarkup name) := by
  have hlabel : Neutral "Workflow:".toList := .of_all (by decide)
  have hblank : Neutral " ".toList := .of_all (by decide)
  have hbold : Encloses "[bold]".toList "[/bold]".toList := encloses_name "bold" (by decide)
  have hfront : Neutral "[bold]Workflow:[/bold] ".toList := by
    simpa using (hlabel.enclosed hbold).append hblank
  refine Stands.nested ?_
  rw [String.toList_append]
  exact (Stands.escaped_nil name).behind hfront

/-- **When the lines above a run are shown**: the names of the connections nest. -/
theorem IsTitled.showHeader (h : plan.IsTitled) {c : Console} (hc : c.TakesNested)
    (hnames : IsNested plan.shownNames) : c.showHeader plan = .ok () := by
  obtain ⟨name, -, hlines⟩ := h.header_lines
  have hshow : ∀ lines, (Notice.header plan).lines = .ok lines →
      c.showHeader plan = c.showLines lines := fun lines hlines => by
    rw [Console.showHeader, hlines]
    rfl
  rw [hshow _ hlines]
  refine Console.showLines_ok hc fun s hs => ?_
  simp only [blankLine, List.mem_cons, Line.markup.injEq, List.not_mem_nil, or_false] at hs
  rcases hs with rfl | rfl | rfl | rfl
  · decide
  · exact isNested_title name
  · exact plan.isNested_settingsLine.2 hnames
  · decide

-- a closing tag nests as it stands in the name of a plan, and not as it stands in that of a
-- connection
example : IsNested ("[bold]Workflow:[/bold] " ++ escapeMarkup "[/b]") ∧
    ¬ IsNested (", ".intercalate ["[/b]"]) := by decide

end Plan

/-! ### The other notices -/

namespace Display.Notice

/-- A notice behind the header of a run whose tasks have been checked, at times of its clock. -/
def FromTasks : Notice → Prop
  | .header _ => False
  | .start task _ => task.type ∈ TaskKind.names
  | .result _ _ duration _ _ _ => duration = Task.noTime
  | .summary _ _ _ elapsed => elapsed = Task.noTime
  | _ => True

/-- The icons of tasks leave the open styles as they are, also behind a bracket. -/
theorem neutral_icon : ∀ icon ∈ [runningIcon, groupIcon, successIcon, failedIcon, skippedIcon],
    Neutral ('[' :: icon.toList) := by
  have hbold : Encloses "[bold]".toList "[/bold]".toList := encloses_name "bold" (by decide)
  have hcyan : Encloses "[cyan]".toList "[/cyan]".toList := encloses_name "cyan" (by decide)
  have hwhite : Encloses "[white]".toList "[/white]".toList := encloses_name "white" (by decide)
  have hgreen : Encloses "[green]".toList "[/green]".toList := encloses_name "green" (by decide)
  have hred : Encloses "[red]".toList "[/red]".toList := encloses_name "red" (by decide)
  have hyellow : Encloses "[yellow]".toList "[/yellow]".toList :=
    encloses_name "yellow" (by decide)
  have hmark : ∀ mark ∈ ['•', '▶', '✓', '✗', '⏭'], Neutral [mark] := by
    have hplain : ['•', '▶', '✓', '✗', '⏭'].all isPlain = true := by decide
    exact fun mark hmark =>
      .plain fun c hc => List.mem_singleton.1 hc ▸ List.all_eq_true.1 hplain mark hmark
  intro icon hicon
  simp only [List.mem_cons, List.not_mem_nil, or_false] at hicon
  rcases hicon with rfl | rfl | rfl | rfl | rfl
  · have hneutral := ((hmark '•' (by simp)).enclosed hbold).enclosed hcyan
    exact .bracket rfl (by simpa [runningIcon] using hneutral)
  · have hneutral := (hmark '▶' (by simp)).enclosed hwhite
    exact .bracket rfl (by simpa [groupIcon] using hneutral)
  · have hneutral := ((hmark '✓' (by simp)).enclosed hbold).enclosed hgreen
    exact .bracket rfl (by simpa [successIcon] using hneutral)
  · have hneutral := ((hmark '✗' (by simp)).enclosed hbold).enclosed hred
    exact .bracket rfl (by simpa [failedIcon] using hneutral)
  · have hneutral := (hmark '⏭' (by simp)).enclosed hyellow
    exact .bracket rfl (by simpa [skippedIcon] using hneutral)

theorem neutral_replicate {c : Char} (hc : isPlain c = true) (n : Nat) :
    Neutral (String.ofList (List.replicate n c)).toList := by
  rw [String.toList_ofList]
  exact .plain fun d hd => by rwa [List.eq_of_mem_replicate hd]

theorem neutral_indent (depth : Int) : Neutral (indent depth).toList :=
  neutral_replicate rfl _

theorem neutral_dim {s : String} (h : Neutral s.toList) : Neutral (dim s).toList := by
  have hdim : Encloses "[dim]".toList "[/dim]".toList := encloses_name "dim" (by decide)
  rw [dim, String.toList_append, String.toList_append, List.append_assoc]
  exact h.enclosed hdim

/-- The time that the clock of a run shows is plain text. -/
theorem exists_time : ∃ time, durationText Task.noTime = .ok time ∧ Neutral time.toList := by
  have hless : (Binary64.zero false).less (Binary64.ofInt 60) = true := by decide +kernel
  have hplain : ((Binary64.zero false).fixedText 1 ++ "s").toList.all isPlain = true := by
    decide +kernel
  exact ⟨_, by rw [Task.noTime, durationText, floatDuration, if_pos hless], .of_all hplain⟩

/-- **The beginning of a task's line** stands in front of what begins with a blank. -/
theorem stands_taskLine {icon line : String} {task : Task} {depth : Int} {rest : List Char}
    (hicon : icon ∈ [runningIcon, groupIcon, successIcon, failedIcon, skippedIcon])
    (hline : taskLine icon task depth = .ok line) (hrest : Stands (' ' :: rest))
    (hbracket : firstBracket rest ≠ some ']') : Stands (line.toList ++ ' ' :: rest) := by
  obtain ⟨name, hname, rfl⟩ : ∃ name, task.displayName.asText? = some name ∧
      line = indent depth ++ "[" ++ icon ++ "] " ++ escapeMarkup name := by
    unfold taskLine escaped at hline
    cases hname : task.displayName.asText? with
    | none =>
      rw [hname] at hline
      cases hline
    | some name =>
      rw [hname] at hline
      exact ⟨name, rfl, (Except.ok.inj hline).symm⟩
  -- the bracket around the icon begins no tag, as the icon begins with a bracket of its own
  have hclosing : Neutral "] ".toList := .of_all (by decide)
  have hfront : Neutral ((indent depth).toList ++ (('[' :: icon.toList) ++ "] ".toList)) :=
    (neutral_indent depth).append ((neutral_icon icon hicon).append hclosing)
  have hescaped : Stands ((escapeMarkup name).toList ++ ' ' :: rest) :=
    .escaped name (by decide) hbracket hrest
  have hlist : (indent depth ++ "[" ++ icon ++ "] " ++ escapeMarkup name).toList ++ ' ' :: rest =
      ((indent depth).toList ++ (('[' :: icon.toList) ++ "] ".toList)) ++
        ((escapeMarkup name).toList ++ ' ' :: rest) := by
    simp only [String.toList_append, List.append_assoc]
    rfl
  rw [hlist]
  exact .behind hfront hescaped

theorem firstBracket_dim (s : String) (rest : List Char) :
    firstBracket ((dim s).toList ++ rest) ≠ some ']' := by
  have hfirst : firstBracket ("[dim]".toList ++ (s.toList ++ ("[/dim]".toList ++ rest))) =
      some '[' := rfl
  rw [dim, String.toList_append, String.toList_append, List.append_assoc, List.append_assoc, hfirst]
  decide

/-- Escaped text behind plain text, dimmed, stands. -/
theorem stands_dim_escaped {front : String} {rest : List Char} (s : String)
    (hfront : Neutral front.toList) (hrest : Stands rest) :
    Stands ((dim (front ++ escapeMarkup s)).toList ++ rest) := by
  have hdim : Encloses "[dim]".toList "[/dim]".toList := encloses_name "dim" (by decide)
  have hstands := hrest.enclosed_escaped s hdim hfront
  rw [dim, String.toList_append, String.toList_append, String.toList_append]
  simpa only [List.append_assoc] using hstands

theorem blank_cons {rest : List Char} (h : Stands rest) : Stands (' ' :: rest) := by
  have hblank : Neutral [' '] := .of_all (by decide)
  exact h.behind hblank

theorem neutral_kind : ∀ name ∈ TaskKind.names, Neutral name.toList := by
  have hplain : (TaskKind.names.all fun name => name.toList.all isPlain) = true := by decide
  exact fun name hname => .of_all (List.all_eq_true.1 hplain name hname)

theorem start_nested {task : Task} {depth : Int} {lines : List Line}
    (htype : task.type ∈ TaskKind.names) (h : (start task depth).lines = .ok lines) :
    ∀ s, .markup s ∈ lines → IsNested s := by
  unfold Notice.lines at h
  obtain ⟨line, hline, rfl⟩ := exists_of_map_ok h
  intro s hs
  obtain rfl := Line.markup.inj (List.mem_singleton.1 hs)
  have hicon : (if task.nested.isEmpty then runningIcon else groupIcon) ∈
      [runningIcon, groupIcon, successIcon, failedIcon, skippedIcon] := by
    split <;> simp
  have htype : Neutral ("(" ++ task.type ++ ")").toList := by
    rw [String.toList_append, String.toList_append]
    exact ((Neutral.of_all (by decide)).append (neutral_kind _ htype)).append
      (.of_all (by decide))
  have hrest := blank_cons (neutral_dim htype).stands
  have hbracket := firstBracket_dim ("(" ++ task.type ++ ")") []
  rw [List.append_nil] at hbracket
  refine Stands.nested ?_
  rw [String.toList_append, String.toList_append, List.append_assoc]
  exact stands_taskLine hicon hline hrest hbracket

theorem skipped_nested {task : Task} {reason : String} {depth : Int} {lines : List Line}
    (h : (skipped task reason depth).lines = .ok lines) :
    ∀ s, .markup s ∈ lines → IsNested s := by
  unfold Notice.lines at h
  obtain ⟨line, hline, rfl⟩ := exists_of_map_ok h
  intro s hs
  obtain rfl := Line.markup.inj (List.mem_singleton.1 hs)
  have hdash : Neutral "- ".toList := .of_all (by decide)
  have hstands := stands_dim_escaped reason hdash .nil
  have hbracket := firstBracket_dim ("- " ++ escapeMarkup reason) []
  rw [List.append_nil] at hstands hbracket
  refine Stands.nested ?_
  rw [String.toList_append, String.toList_append, List.append_assoc]
  exact stands_taskLine (by simp) hline (blank_cons hstands) hbracket

/-- The time at the end of a task's line. -/
theorem stands_time {time : String} (htime : Neutral time.toList) :
    Stands (' ' :: ' ' :: (dim time).toList) :=
  blank_cons (blank_cons (neutral_dim htime).stands)

theorem toList_timeEnd (time : String) :
    ("  " ++ dim time).toList = ' ' :: ' ' :: (dim time).toList := by
  rw [String.toList_append]
  rfl

/-- The line of a task with its time. -/
theorem nested_timed {icon line time : String} {task : Task} {depth : Int}
    (hicon : icon ∈ [runningIcon, groupIcon, successIcon, failedIcon, skippedIcon])
    (hline : taskLine icon task depth = .ok line) (htime : Neutral time.toList) :
    IsNested (line ++ ("  " ++ dim time)) := by
  have hbracket : firstBracket (' ' :: (dim time).toList) ≠ some ']' := by
    have hdim := firstBracket_dim time []
    rwa [List.append_nil] at hdim
  refine Stands.nested ?_
  rw [String.toList_append, toList_timeEnd]
  exact stands_taskLine hicon hline (stands_time htime) hbracket

/-- The line of a task with what it has come to and its time. -/
theorem nested_output {icon line time : String} {task : Task} {depth : Int}
    (hicon : icon ∈ [runningIcon, groupIcon, successIcon, failedIcon, skippedIcon])
    (hline : taskLine icon task depth = .ok line) (htime : Neutral time.toList) (output : String) :
    IsNested (line ++ (" " ++ dim ("-> " ++ escapeMarkup output)) ++ ("  " ++ dim time)) := by
  have harrow : Neutral "-> ".toList := .of_all (by decide)
  have hstands := blank_cons (stands_dim_escaped output harrow (stands_time htime))
  have hbracket := firstBracket_dim ("-> " ++ escapeMarkup output)
    (' ' :: ' ' :: (dim time).toList)
  have hblank : " ".toList = [' '] := rfl
  refine Stands.nested ?_
  rw [String.toList_append, toList_timeEnd, String.toList_append, String.toList_append,
    List.append_assoc, List.append_assoc, hblank, List.singleton_append]
  exact stands_taskLine hicon hline hstands hbracket

/-- The line of a failure. -/
theorem nested_fault (reason : String) (depth : Int) :
    IsNested (indent depth ++ "    [red]Error: " ++ escapeMarkup reason ++ "[/red]") := by
  have hred : Encloses "[red]".toList "[/red]".toList := encloses_name "red" (by decide)
  have hlabel : Neutral "Error: ".toList := .of_all (by decide)
  have hblanks : Neutral "    ".toList := .of_all (by decide)
  have hstands := (Stands.nil.enclosed_escaped reason hred hlabel).behind
    ((neutral_indent depth).append hblanks)
  have hfront : "    [red]Error: ".toList =
      "    ".toList ++ ("[red]".toList ++ "Error: ".toList) := by simp
  refine Stands.nested ?_
  rw [String.toList_append, String.toList_append, String.toList_append, hfront]
  simpa only [List.append_assoc, List.append_nil] using hstands

theorem result_nested {task : Task} {success : Bool} {output fault : Option String} {depth : Int}
    {lines : List Line}
    (h : (result task success Task.noTime output fault depth).lines = .ok lines) :
    ∀ s, .markup s ∈ lines → IsNested s := by
  obtain ⟨time, htime, hneutral⟩ := exists_time
  unfold Notice.lines resultLines at h
  obtain ⟨shownTime, hshown, hlines⟩ := exists_of_bind_ok h
  obtain rfl : time = shownTime := Except.ok.inj (htime.symm.trans hshown)
  clear h
  cases success with
  | true =>
    rw [if_pos rfl] at hlines
    obtain ⟨line, hline, hgiven⟩ := exists_of_bind_ok hlines
    obtain rfl := Except.ok.inj hgiven
    have htimed := nested_timed (by simp) hline hneutral
    intro s hs
    obtain rfl := Line.markup.inj (List.mem_singleton.1 hs)
    split
    · rwa [String.append_empty]
    · rwa [String.append_empty]
    · exact nested_output (by simp) hline hneutral _
  | false =>
    -- the reason, if there is one, is a line of its own
    rw [if_neg Bool.false_ne_true] at hlines
    obtain ⟨line, hline, hgiven⟩ := exists_of_bind_ok hlines
    obtain rfl := Except.ok.inj hgiven
    intro s hs
    rcases List.mem_cons.1 hs with hs | hs
    · rw [Line.markup.inj hs]
      exact nested_timed (by simp) hline hneutral
    · split at hs
      · cases hs
      · cases hs
      · rw [Line.markup.inj (List.mem_singleton.1 hs)]
        exact nested_fault _ depth

theorem neutral_intText (n : Int) : Neutral (intText n).toList := by
  cases n with
  | ofNat k =>
    rw [toList_intText_ofNat]
    exact neutral_digits k
  | negSucc k =>
    rw [toList_intText_negSucc]
    have hminus : Neutral ['-'] := .of_all (by decide)
    exact hminus.append (neutral_digits (k + 1))

theorem summary_shown (completed failed skipped : Int) :
    ∃ lines, (summary completed failed skipped Task.noTime).lines = .ok lines := by
  obtain ⟨time, htime, -⟩ := exists_time
  exact ⟨_, by simp only [Notice.lines, summaryLines, htime]; rfl⟩

/-- The numbers of tasks in a summary. -/
theorem neutral_counts (completed skipped : Int) : Neutral (intText completed ++ " tasks" ++
    (if skipped = 0 then "" else ", " ++ intText skipped ++ " skipped")).toList := by
  have hskips : Neutral
      (if skipped = 0 then "" else ", " ++ intText skipped ++ " skipped").toList := by
    split
    · exact .of_all (by decide)
    · rw [String.toList_append, String.toList_append]
      exact ((Neutral.of_all (by decide)).append (neutral_intText _)).append (.of_all (by decide))
  rw [String.toList_append, String.toList_append]
  exact ((neutral_intText _).append (.of_all (by decide))).append hskips

theorem summary_nested {completed failed skipped : Int} {lines : List Line}
    (h : (summary completed failed skipped Task.noTime).lines = .ok lines) :
    ∀ s, .markup s ∈ lines → IsNested s := by
  obtain ⟨time, htime, hneutral⟩ := exists_time
  unfold Notice.lines summaryLines at h
  simp only [htime] at h
  obtain rfl := Except.ok.inj h
  have hcounts := neutral_counts completed skipped
  have hbar : Neutral " | ".toList := .of_all (by decide)
  intro s hs
  simp only [blankLine, List.mem_cons, Line.markup.injEq, List.not_mem_nil, or_false] at hs
  rcases hs with rfl | rfl | rfl | rfl
  · decide
  · exact (neutral_replicate rfl 40).stands.nested
  · refine Stands.nested (Neutral.stands ?_)
    split
    · have hcomplete : Neutral "✓ Workflow complete".toList := .of_all (by decide)
      have hgreen : Encloses "[green]".toList "[/green]".toList :=
        encloses_name "green" (by decide)
      have hfront : Neutral "[green]✓ Workflow complete[/green] | ".toList := by
        simpa using (hcomplete.enclosed hgreen).append hbar
      rw [String.toList_append, String.toList_append, String.toList_append]
      exact ((hfront.append hcounts).append hbar).append hneutral
    · have hlost : Neutral "✗ Workflow failed".toList := .of_all (by decide)
      have hred : Encloses "[red]".toList "[/red]".toList := encloses_name "red" (by decide)
      have hfront : Neutral "[red]✗ Workflow failed[/red] | ".toList := by
        simpa using (hlost.enclosed hred).append hbar
      have hcomma : Neutral ", ".toList := .of_all (by decide)
      have hfailed : Neutral " failed | ".toList := .of_all (by decide)
      rw [String.toList_append, String.toList_append, String.toList_append, String.toList_append,
        String.toList_append]
      exact ((((hfront.append hcounts).append hcomma).append (neutral_intText _)).append
        hfailed).append hneutral
  · decide

/-- The line of an error of a run. -/
theorem nested_error (text : String) :
    IsNested ("\n[bold red]Error: " ++ escapeMarkup text ++ "[/bold red]") := by
  have hred : Encloses "[bold red]".toList "[/bold red]".toList :=
    encloses_name "bold red" (by decide)
  have hlabel : Neutral "Error: ".toList := .of_all (by decide)
  have hbreak : Neutral "\n".toList := .of_all (by decide)
  have hstands := (Stands.nil.enclosed_escaped text hred hlabel).behind hbreak
  have hfront : "\n[bold red]Error: ".toList =
      "\n".toList ++ ("[bold red]".toList ++ "Error: ".toList) := by simp
  refine Stands.nested ?_
  rw [String.toList_append, String.toList_append, hfront]
  simpa only [List.append_assoc, List.append_nil] using hstands

/-- **Behind its header a run tells only markup that nests**, whatever the texts of the user are. -/
theorem lines_nested {n : Notice} (hn : n.FromTasks) {lines : List Line}
    (h : n.lines = .ok lines) : ∀ s, .markup s ∈ lines → IsNested s := by
  cases n with
  | header plan => exact absurd hn id
  | start task depth => exact start_nested hn h
  | result task success duration output fault depth =>
    obtain rfl : duration = Task.noTime := hn
    exact result_nested h
  | skipped task reason depth => exact skipped_nested h
  | error text =>
    obtain rfl := Except.ok.inj h
    intro s hs
    rw [Line.markup.inj (List.mem_singleton.1 hs)]
    exact nested_error text
  | interrupted =>
    obtain rfl := Except.ok.inj h
    intro s hs
    simp only [blankLine, List.mem_cons, Line.markup.injEq, List.not_mem_nil, or_false] at hs
    rcases hs with rfl | rfl
    · decide
    · decide
  | listing entries =>
    unfold Notice.lines listingLines at h
    obtain ⟨sorted, -, h⟩ := exists_of_bind_ok h
    obtain ⟨rows, -, h⟩ := exists_of_bind_ok h
    obtain rfl := Except.ok.inj h
    intro s hs
    simp only [blankLine, List.mem_cons, Line.markup.injEq, reduceCtorEq, List.not_mem_nil,
      or_false] at hs
    rw [hs]
    decide
  | summary completed failed skipped elapsed =>
    obtain rfl : elapsed = Task.noTime := hn
    exact summary_nested h
  | refusal content =>
    obtain rfl := Except.ok.inj h
    intro s hs
    simp only [blankLine, List.mem_cons, Line.markup.injEq, reduceCtorEq, List.not_mem_nil,
      or_false, false_or] at hs
    rcases hs with rfl | rfl
    · decide
    · decide

end Display.Notice

end Runbook
