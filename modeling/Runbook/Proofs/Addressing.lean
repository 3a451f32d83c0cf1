import Runbook.Proofs.NamedEntries
import Runbook.Proofs.Publication
import Runbook.Proofs.ReadingBack

/-!
# Addressing what a procedure returned

What comes back from a call goes through four stages: the walk over the results, the collecting of
outputs, the publication under the scope of the task, and the path by which a part of it is asked
for. Each stage keeps everything, in an order that says which of two values of one name counts.

* `Path.parse_brackets`: the path of a name with brackets behind it.
* `Connection.walk_spec`: the result sets and the number of changed rows of a walk.
* `Response.outputsOf_spec`: the outputs, as the members that the parameters offer.
* `Store.setKeys_spec`: what is found behind the writing of members.
* `Task.callProcedure_addressable`: **what a task published is found by its path.** An index that is
  too long to be read is refused, although there is nothing at it.
-/

namespace Runbook

open Runbook.Text

namespace Path

/-! ### A name with brackets behind it -/

/-- Texts in brackets, one behind the other. -/
def brackets : List (List Char) → List Char
  | [] => []
  | k :: ks => '[' :: k ++ ']' :: brackets ks

variable {ks : List (List Char)} {scope key : String}

theorem tokensOutside_brackets (hclose : ∀ k ∈ ks, ']' ∉ k) (word : List Char) :
    tokensOutside word (brackets ks) = andThen (wordSegment word) (ks.mapM bracketSegment) := by
  induction ks generalizing word with
  | nil => simp [brackets, tokensOutside, andThen, pure, Except.pure]
  | cons k ks ih =>
    have hread := tokensInside_close (hclose k List.mem_cons_self) [] (brackets ks)
    have hrest := ih (fun l hl => hclose l (List.mem_cons_of_mem _ hl)) []
    have hnone : wordSegment [] = [] := rfl
    rw [hnone, andThen_nil] at hrest
    rw [brackets, List.cons_append, tokensOutside_bracket, hread, List.nil_append, hrest,
      List.mapM_cons]
    congr 1
    cases bracketSegment k with
    | error e => rfl
    | ok s => cases ks.mapM bracketSegment <;> rfl

/-- A text that does not end in a blank does not with brackets behind it. -/
theorem getLast_brackets {cs : List Char} (hcs : ∀ c, cs.getLast? = some c → isBlank c = false)
    (ks : List (List Char)) {c : Char} (h : (cs ++ brackets ks).getLast? = some c) :
    isBlank c = false := by
  induction ks generalizing cs with
  | nil => exact hcs c (by simpa [brackets] using h)
  | cons k ks ih =>
    have hsplit : cs ++ brackets (k :: ks) = (cs ++ '[' :: k ++ [']']) ++ brackets ks := by
      simp [brackets]
    rw [hsplit] at h
    refine ih (fun d hd => ?_) h
    rw [List.getLast?_concat] at hd
    obtain rfl : ']' = d := Option.some.inj hd
    decide

/-- **The path of a name with brackets behind it**: what the brackets hold are its segments, and the
first that holds none ends the reading. -/
theorem parse_brackets (hscope : IsName scope) (hkey : IsName key) (hs : IsPlain scope)
    (hk : IsPlain key) (hclose : ∀ k ∈ ks, ']' ∉ k) :
    parse (wrapped (joined scope key ++ brackets ks)) =
      match ks.mapM bracketSegment with
      | .ok segments => .ok ⟨scope, key, segments⟩
      | .error e => .error (e.toError (String.ofList (joined scope key ++ brackets ks))) := by
  have hhead : ∀ c, (joined scope key ++ brackets ks).head? = some c → isBlank c = false := by
    intro c hc
    refine isBlank_head_of_trimmed hscope.2 ?_
    rwa [joined, List.append_assoc, List.head?_append_of_ne_nil _ (toList_ne_nil hscope.1)] at hc
  have hlast : ∀ c, (joined scope key).getLast? = some c → isBlank c = false := by
    intro c hc
    have hkeyLast : key.toList.getLast? = some c := by
      rwa [joined, List.getLast?_append_of_ne_nil _ (by simp),
        List.getLast?_cons_of_ne_nil (toList_ne_nil hkey.1)] at hc
    rw [← hkey.2, toList_trim] at hkeyLast
    exact getLast_trimChars hkeyLast
  have htrim : trimChars (joined scope key ++ brackets ks) = joined scope key ++ brackets ks :=
    trimChars_eq_self.2 ⟨hhead, fun c hc => getLast_brackets hlast ks hc⟩
  have htokens : tokens (joined scope key ++ brackets ks) =
      andThen [.key scope] (andThen [.key key] (ks.mapM bracketSegment)) := by
    rw [tokens, joined, List.append_assoc, tokensOutside_word hs.1 hs.2, List.nil_append,
      List.cons_append, tokensOutside_point, wordSegment_toList hscope.1,
      tokensOutside_word hk.1 hk.2, List.nil_append, tokensOutside_brackets hclose,
      wordSegment_toList hkey.1]
  have hunwrap : unwrap (wrapped (joined scope key ++ brackets ks)) =
      String.ofList (joined scope key ++ brackets ks) := by
    rw [unwrap, wrapped, String.toList_ofList, unwrapChars_written, htrim]
  rw [parse, isBlankText_wrapped, hunwrap, tokenize, String.toList_ofList, htokens]
  cases ks.mapM bracketSegment with
  | error e => rfl
  | ok segments => simp [andThen, ofSegments?_names hscope hkey]

/-- An index that is short enough to be read. -/
def Fits (i : Nat) : Prop := (digitsOfNat i).length ≤ maxIntegerDigits

instance (i : Nat) : Decidable (Fits i) :=
  inferInstanceAs (Decidable ((digitsOfNat i).length ≤ maxIntegerDigits))

/-- The text of a cell: of a column, in a row of a result set of a scope. -/
def cellText (scope : String) (i j : Nat) (column : String) : String :=
  wrapped (joined scope "ResultSet" ++
    brackets [digitsOfNat i, digitsOfNat j, column.toList])

theorem isIndexText_digitsOfNat (i : Nat) : IsIndexText (digitsOfNat i) :=
  ⟨digitsOfNat_ne_nil i, fun _ => isAsciiDigit_of_mem_digitsOfNat⟩

/-- What brackets make of the digits of a number. -/
theorem bracketSegment_digits (i : Nat) : bracketSegment (digitsOfNat i) =
    if Fits i then .ok (.index i) else .error (.tooManyDigits (digitsOfNat i).length) := by
  have hindex := isIndexText_digitsOfNat i
  have htrim := trimChars_of_digits hindex
  by_cases h : Fits i
  · rw [if_pos h, bracketSegment_index (by rwa [htrim]) (by rwa [htrim]), htrim,
      natOfDigits_digitsOfNat]
  · have hdigits := (isIndexText_iff _).1 hindex
    have hlong : maxIntegerDigits < (digitsOfNat i).length := Nat.lt_of_not_le h
    simp only [bracketSegment]
    rw [htrim, if_neg (by simp [hdigits]), if_pos hlong, if_neg h]

/-- The least index that is too long. -/
def longIndex : Nat := 10 ^ maxIntegerDigits

theorem not_fits_longIndex : ¬ Fits longIndex := by
  intro h
  have hlt := natOfDigits_lt fun c (hc : c ∈ digitsOfNat longIndex) =>
    isAsciiDigit_of_mem_digitsOfNat hc
  rw [natOfDigits_digitsOfNat] at hlt
  have hle : 10 ^ (digitsOfNat longIndex).length ≤ longIndex := Nat.pow_le_pow_right (by omega) h
  omega

theorem not_mem_digitsOfNat (i : Nat) : ']' ∉ digitsOfNat i := by
  intro h
  have hdigit : isAsciiDigit ']' = true := isAsciiDigit_of_mem_digitsOfNat h
  cases hdigit

variable {i j : Nat} {column : String}

theorem not_mem_cell (hcolumn : IsQuotable column) :
    ∀ k ∈ [digitsOfNat i, digitsOfNat j, column.toList], ']' ∉ k := by
  simp [not_mem_digitsOfNat, hcolumn.no_close]

/-- The path of a cell. -/
theorem parse_cellText (hscope : IsName scope) (hplain : IsPlain scope)
    (hcolumn : IsQuotable column) (hi : Fits i) (hj : Fits j) :
    parse (cellText scope i j column) =
      .ok ⟨scope, "ResultSet", [.index i, .index j, .key column]⟩ := by
  have hsegments : [digitsOfNat i, digitsOfNat j, column.toList].mapM bracketSegment =
      .ok [.index i, .index j, .key column] := by
    simp [bracketSegment_digits, hi, hj, bracketSegment_quoted hcolumn, bind, Except.bind, pure,
      Except.pure]
  rw [cellText, parse_brackets hscope (by decide) hplain (by decide) (not_mem_cell hcolumn),
    hsegments]

/-- An index that is too long is refused. -/
theorem parse_cellText_long (hscope : IsName scope) (hplain : IsPlain scope)
    (hcolumn : IsQuotable column) (h : ¬ (Fits i ∧ Fits j)) :
    ∃ n, parse (cellText scope i j column) = .error (.value (.integerTooLong (some n))) := by
  obtain ⟨n, hsegments⟩ : ∃ n, [digitsOfNat i, digitsOfNat j, column.toList].mapM bracketSegment =
      .error (.tooManyDigits n) := by
    by_cases hi : Fits i
    · have hj : ¬ Fits j := fun hj => h ⟨hi, hj⟩
      exact ⟨(digitsOfNat j).length, by
        simp [bracketSegment_digits, hi, hj, bind, Except.bind]⟩
    · exact ⟨(digitsOfNat i).length, by simp [bracketSegment_digits, hi, bind, Except.bind]⟩
  refine ⟨n, ?_⟩
  rw [cellText, parse_brackets hscope (by decide) hplain (by decide) (not_mem_cell hcolumn),
    hsegments]
  rfl

end Path

/-! ### The walk over the results -/

namespace Connection

/-- The results with columns, each with its rows. -/
def tables (results : List ResultSet) : List (List String × List (List Value)) :=
  results.filterMap fun r =>
    match r.columns, r.rows with
    | some columns, .ok rows => some (columns, rows)
    | _, _ => none

/-- The numbers of changed rows, of the results without columns that tell one. -/
def changes (results : List ResultSet) : List Int :=
  results.filterMap fun r =>
    match r.columns, r.count with
    | none, some n => if 0 ≤ n then some n else none
    | _, _ => none

/-- The rows of a table as maps. -/
def tableRows (table : List String × List (List Value)) : List Entries :=
  table.2.map (rowEntries table.1)

/-- **A walk collects every result**: the rows of those with columns, in order, and the sum of the
numbers of changed rows of the others. -/
theorem walk_spec {results : List ResultSet} {sets : List (List Entries)} {updates : Int}
    (h : walk true results = .ok (sets, updates)) :
    sets = (tables results).map tableRows ∧ updates = (changes results).sum := by
  induction results generalizing sets updates with
  | nil =>
    cases h
    exact ⟨rfl, rfl⟩
  | cons r rest ih =>
    rw [walk] at h
    cases hcolumns : r.columns with
    | some columns =>
      rw [hcolumns] at h
      cases hrows : r.rows with
      | error e =>
        simp [rowsOf, hrows, Except.map, bind, Except.bind] at h
      | ok rows =>
        simp only [rowsOf, hrows, hcolumns, Except.map, Bool.not_true, Bool.false_eq_true,
          if_false, Option.getD_some] at h
        obtain ⟨here, hhere, h⟩ := exists_of_bind_ok h
        obtain ⟨-, -, h⟩ := exists_of_bind_ok h
        obtain ⟨⟨more, others⟩, hmore, h⟩ := exists_of_bind_ok h
        obtain ⟨hsets, hupdates⟩ := ih hmore
        cases hhere
        cases h
        simp [tables, changes, hcolumns, hrows, hsets, hupdates, tableRows]
    | none =>
      rw [hcolumns] at h
      simp only [Bool.not_true, Bool.false_eq_true, if_false] at h
      obtain ⟨here, hhere, h⟩ := exists_of_bind_ok h
      obtain ⟨-, -, h⟩ := exists_of_bind_ok h
      obtain ⟨⟨more, others⟩, hmore, h⟩ := exists_of_bind_ok h
      obtain ⟨hsets, hupdates⟩ := ih hmore
      cases hhere
      cases h
      cases hcount : r.count with
      | none => simp [tables, changes, hcolumns, hcount, hsets, hupdates]
      | some n =>
        by_cases hn : 0 ≤ n <;> simp [tables, changes, hcolumns, hcount, hsets, hupdates, hn]

/-- The rows of all tables as a value. -/
def resultSets (results : List ResultSet) : Value :=
  .list ((tables results).map fun table => .list ((tableRows table).map .dict))

/-- The value in a cell: that of the last column of a name, in a row of a result with columns; null
where there is no such result, row or column. -/
def cell (results : List ResultSet) (i j : Nat) (column : String) : Value :=
  match (tables results)[i]? with
  | none => .null
  | some (columns, rows) =>
    match rows[j]? with
    | none => .null
    | some row => (Entries.lastNamed column (columns.zip row)).getD .null

/-- The values that a call gave back for its parameters. -/
def returned (c : Connection) : List Value :=
  match c.call with
  | .ok .null => []
  | .ok v =>
    match v.items with
    | .ok values => values
    | .error _ => []
  | .error _ => []

end Connection

/-- A row as a map has the value of the last column of each name. -/
theorem field?_rowEntries (columns : List String) (row : List Value) (column : String) :
    (rowEntries columns row).field? column = Entries.lastNamed column (columns.zip row) := by
  have hnamed : (columns.map Value.str).zip row = Entries.named (columns.zip row) := by
    rw [Entries.named, List.zip_map_left]
    rfl
  rw [rowEntries, hnamed, Entries.field?_ofList_named]

/-- Drilling from the result sets leads to the cell. -/
theorem drill_resultSets (results : List ResultSet) (i j : Nat) (column : String) :
    drill (Connection.resultSets results) [.index i, .index j, .key column] =
      .ok (Connection.cell results i j column) := by
  have hset : step (Connection.resultSets results) (.index i) =
      .ok (((Connection.tables results)[i]?.map fun table =>
        Value.list ((Connection.tableRows table).map .dict)).getD .null) := by
    have hnonneg : ¬ (i : Int) < 0 := by omega
    simp [Connection.resultSets, step, Value.sequenceItem, hnonneg]
  rw [drill, hset, Connection.cell]
  cases htable : (Connection.tables results)[i]? with
  | none => rfl
  | some table =>
    obtain ⟨columns, rows⟩ := table
    have hrow : step (Value.list ((Connection.tableRows (columns, rows)).map .dict)) (.index j) =
        .ok ((rows[j]?.map fun row => Value.dict (rowEntries columns row)).getD .null) := by
      have hnonneg : ¬ (j : Int) < 0 := by omega
      simp [step, Value.sequenceItem, Connection.tableRows, hnonneg, Function.comp_def]
    simp only [Option.map_some, Option.getD_some, endsPath]
    rw [drill, hrow]
    cases rows[j]? with
    | none => rfl
    | some row =>
      simp only [Option.map_some, Option.getD_some, endsPath, drill, step, Entries.field,
        field?_rowEntries]
      rfl

/-! ### The outputs -/

namespace Parameter

/-- The names that the value of a parameter is written under. -/
def outputNames (p : Parameter) : List String :=
  match p.outputAlias with
  | .ok (some other) => [p.outputName, other]
  | _ => [p.outputName]

/-- A literal of bytes has no blanks around it. -/
theorem trim_quoteBytes (bs : List UInt8) : trim (quoteBytes bs) = quoteBytes bs := by
  have hmark : ∀ c ∈ [quoteMarkOfBytes bs], isBlank c = false := by
    intro c hc
    obtain rfl := List.mem_singleton.1 hc
    unfold quoteMarkOfBytes quoteMark
    split <;> decide
  apply String.toList_injective
  rw [toList_trim, trimChars_eq_self]
  simp only [quoteBytes, String.toList_ofList]
  refine ⟨fun c hc => ?_, fun c hc => ?_⟩
  · obtain rfl : 'b' = c := by simpa using hc
    decide
  · rw [List.getLast?_concat] at hc
    exact hmark c (by simpa using hc.symm)

/-- The other name of an output has no blanks around it. -/
theorem trim_outputAlias {p : Parameter} {other : String} (h : p.outputAlias = .ok (some other)) :
    trim other = other := by
  have hgiven : ∀ {v : Value} {s : String}, (∀ bs, v ≠ .byteArray bs) →
      givenText v = .ok (some s) → trim s = s := by
    intro v s hv hs
    unfold givenText at hs
    split at hs
    · cases hs
    split at hs
    · rename_i bs
      unfold givenBytes at hs
      dsimp only at hs
      split at hs
      · cases hs
      · cases hs
        exact trim_quoteBytes _
    · exact absurd rfl (hv _)
    · split at hs
      · split at hs
        · cases hs
        · cases hs
          exact trim_trim _
      · cases hs
  unfold outputAlias at h
  split at h
  · cases h
  · cases h
  · rename_i hs hv
    cases h
    exact hgiven hv hs
  · have hname := Except.ok.inj h
    unfold valueName at hname
    split at hname
    · split at hname
      · cases hname
      · cases hname
        exact trim_trim _
    · cases hname

theorem trim_of_mem_outputNames {p : Parameter} {name : String}
    (hname : trim p.outputName = p.outputName) (h : name ∈ p.outputNames) : trim name = name := by
  unfold outputNames at h
  split at h
  · rename_i other halias
    rcases List.mem_cons.1 h with rfl | h
    · exact hname
    · obtain rfl := List.mem_singleton.1 h
      exact trim_outputAlias halias
  · obtain rfl := List.mem_singleton.1 h
    exact hname

end Parameter

namespace Response

/-- The members that output parameters offer, one parameter after another: the value that came back
for it, under its name and under its other name. -/
def offered (params : List Parameter) (values : List Value) : List (String × Value) :=
  (params.zip values).flatMap fun (p, v) =>
    if p.direction.isOutput then p.outputNames.map (·, v) else []

/-- The members that outputs are published under besides, if they are not null. -/
def mirrored (members : List (String × Value)) : List (String × Value) :=
  responseNames.filterMap fun (name, key) =>
    match (Entries.lastNamed name members).getD .null with
    | .null => none
    | v => some (key, v)

/-- What is offered is named by output parameters. -/
theorem mem_offered {params : List Parameter} {values : List Value} {m : String × Value}
    (h : m ∈ offered params values) :
    ∃ p ∈ params, p.direction.isOutput = true ∧ m.1 ∈ p.outputNames := by
  obtain ⟨⟨p, v⟩, hp, hm⟩ := List.mem_flatMap.1 h
  cases hdirection : p.direction.isOutput with
  | false => simp [hdirection] at hm
  | true =>
    simp only [hdirection, if_true, List.mem_map] at hm
    obtain ⟨name, hname, rfl⟩ := hm
    exact ⟨p, (List.of_mem_zip hp).1, hdirection, hname⟩

/-- The names under which outputs are published besides. -/
theorem mem_mirrored {members : List (String × Value)} {m : String × Value}
    (h : m ∈ mirrored members) : m.1 ∈ responseNames.map (·.2) := by
  obtain ⟨⟨name, key⟩, hkey, hm⟩ := List.mem_filterMap.1 h
  dsimp only at hm
  cases hlast : (Entries.lastNamed name members).getD .null <;> rw [hlast] at hm <;> cases hm <;>
    exact List.mem_map.2 ⟨_, hkey, rfl⟩

/-- **The outputs are what the parameters offer**, written one after another. -/
theorem outputsOf_spec :
    ∀ (params : List Parameter) (values : List Value) (members : List (String × Value))
      {outputs : Entries},
      outputsOf params values (Entries.ofList (Entries.named members)) = .ok outputs →
        outputs = Entries.ofList (Entries.named (members ++ offered params values))
  | [], _, members, _, h => by
    rw [outputsOf] at h
    · cases h
      simp [offered]
    · simp
  | p :: params, [], members, _, h => by
    rw [outputsOf] at h
    · cases h
      simp [offered]
    · simp
  | p :: params, v :: values, members, outputs, h => by
    rw [outputsOf] at h
    cases hdirection : p.direction.isOutput with
    | false =>
      rw [hdirection] at h
      have hrest := outputsOf_spec params values members h
      simpa [offered, hdirection] using hrest
    | true =>
      rw [hdirection] at h
      have hinsert : ∀ (ms : List (String × Value)) (name : String),
          Entries.insert (Entries.ofList (Entries.named ms)) (.str name) v =
            Entries.ofList (Entries.named (ms ++ [(name, v)])) := fun ms name =>
        (Entries.ofList_named_concat ms (name, v)).symm
      cases halias : p.outputAlias with
      | error e =>
        rw [halias] at h
        cases h
      | ok other =>
        rw [halias] at h
        cases other with
        | none =>
          simp only [Bool.not_true, Bool.false_eq_true, if_false, hinsert] at h
          have hrest := outputsOf_spec params values _ h
          simpa [offered, hdirection, Parameter.outputNames, halias] using hrest
        | some other =>
          simp only [Bool.not_true, Bool.false_eq_true, if_false, hinsert] at h
          have hrest := outputsOf_spec params values _ h
          simpa [offered, hdirection, Parameter.outputNames, halias] using hrest

theorem collect_spec {c : Connection} {params : List Parameter} {v : Value} {outputs : Entries}
    (hcall : c.call = .ok v) (h : collect params v = .ok outputs) :
    outputs = Entries.ofList (Entries.named (offered params c.returned)) := by
  unfold collect at h
  unfold Connection.returned
  rw [hcall]
  split at h
  · cases h
    simp [offered, Entries.named, Entries.ofList]
  · rename_i hnull
    obtain ⟨values, hitems, hvalues⟩ := exists_of_bind_ok h
    have hspec := outputsOf_spec params values [] hvalues
    cases v with
    | null => exact absurd rfl hnull
    | _ => simpa [hitems] using hspec

/-- **What a call returns**, when its cursor can go on from one result to the next. -/
theorem respond_spec {c : Connection} {request : Request} {r : Response} (hnext : c.hasNext = true)
    (h : c.respond request = .ok r) :
    r.setsValue = Connection.resultSets c.results ∧
      r.updates = (Connection.changes c.results).sum ∧
      r.outputs = Entries.ofList (Entries.named (offered request.params c.returned)) := by
  unfold Connection.respond at h
  obtain ⟨value, hcall, h⟩ := exists_of_bind_ok h
  obtain ⟨⟨sets, updates⟩, hwalk, h⟩ := exists_of_bind_ok h
  obtain ⟨outputs, hcollect, h⟩ := exists_of_bind_ok h
  cases h
  rw [hnext] at hwalk
  obtain ⟨rfl, rfl⟩ := Connection.walk_spec hwalk
  refine ⟨?_, rfl, collect_spec hcall hcollect⟩
  simp [setsValue, Connection.resultSets]

/-- What is written of a response, as members. -/
theorem publication_spec {r : Response} {members : List (String × Value)}
    (houtputs : r.outputs = Entries.ofList (Entries.named members)) :
    ∃ outputs, r.publication = Entries.named (outputs ++ mirrored members ++
        [("ResultSet", r.setsValue), ("UpdateCount", .int r.updates)]) ∧
      (∀ name, name ∈ outputs.map (·.1) ↔ name ∈ members.map (·.1)) ∧
      ∀ name, Entries.lastNamed name outputs = Entries.lastNamed name members := by
  obtain ⟨outputs, hnamed, hnodup, hnames⟩ := Entries.exists_ofList_named members
  have hmirrored : responses r.outputs = Entries.named (mirrored members) := by
    unfold responses mirrored Entries.named Entries.field
    rw [List.map_filterMap]
    congr 1
    funext ⟨name, key⟩
    dsimp only
    rw [houtputs, Entries.field?_ofList_named]
    cases (Entries.lastNamed name members).getD .null <;> rfl
  refine ⟨outputs, ?_, hnames, fun name => ?_⟩
  · rw [publication, hmirrored, houtputs, hnamed]
    simp [Entries.named]
  · rw [← Entries.field?_ofList_named, ← Entries.field?_ofList_named, hnamed,
      Entries.ofList_named hnodup]

end Response

/-! ### The publication -/

namespace Store

/-- **Behind the writing of members** the last member of each name is found under it, and other
variables are found as before. -/
theorem setKeys_spec {scope : Value} {text : String} (hscope : scope ≠ .null)
    (htext : scope.text = .ok text) (htrim : trim text = text) (members : List (String × Value))
    (hmembers : ∀ name ∈ members.map (·.1), trim name = name) {s : Store}
    (h : (s.setKeys scope (Entries.named members)).1 = .ok ()) (name : String) :
    (s.setKeys scope (Entries.named members)).2.lookup? (text, name) =
      (Entries.lastNamed name members).or (s.lookup? (text, name)) := by
  induction members generalizing s with
  | nil => rfl
  | cons m members ih =>
    have hm : trim m.1 = m.1 := hmembers m.1 (by simp)
    have hrest : ∀ name ∈ members.map (·.1), trim name = name := fun n hn =>
      hmembers n (List.mem_cons_of_mem _ hn)
    rw [Entries.named_cons, setKeys, setScoped_text hscope htext] at h ⊢
    split at h
    · rename_i hset
      split at hset
      · cases hset
      · rename_i hblank
        obtain rfl := Except.ok.inj hset
        rw [ih hrest h, Entries.lastNamed, Option.or_assoc, htrim, hm]
        congr 1
        rw [lookup?, put, Variables.lookup?_put, lookup?]
        by_cases hname : m.1 = name
        · simp [hname]
        · have hne : ¬ (text, name) = (text, m.1) := fun heq => hname (Prod.mk.inj heq).2.symm
          simp [hname, hne]
    · cases h

/-- Members under a scope can be written only if the scope is not blank. -/
theorem isName_of_setKeys {scope : Value} {text : String} (hscope : scope ≠ .null)
    (htext : scope.text = .ok text) (htrim : trim text = text) {members : List (String × Value)}
    (hne : members ≠ []) {s : Store} (h : (s.setKeys scope (Entries.named members)).1 = .ok ()) :
    IsName text := by
  obtain ⟨m, rest, rfl⟩ := List.exists_cons_of_ne_nil hne
  rw [Entries.named_cons, setKeys, setScoped_text hscope htext] at h
  refine ⟨?_, htrim⟩
  rintro rfl
  have hblank : isBlankText "" = true := rfl
  rw [hblank] at h
  cases h

end Store

/-! ### The whole task -/

namespace Task

variable {t : Task} {env : Surroundings} {w v : World} {request : Request} {c : Connection}

/-- A task that is done has published what its call came to. -/
theorem publishes_of_done (h : t.Opens env w request c v) {output : String} {next : Option String}
    (hdone : (t.callProcedure env w).1 = .ok (.done output next)) :
    ∃ r, c.respond request = .ok r ∧ (w.store.setKeys t.scope r.publication).1 = .ok () ∧
      (t.callProcedure env w).2.store = (w.store.setKeys t.scope r.publication).2 := by
  cases hwork : c.work request t.commits with
  | error e =>
    -- the work is undone, so the outcome is a failure or an error
    have hkept := c.undo_ne_kept request (c.workUses request t.commits) e
    rw [callProcedure_opened h, callOver_run, Connection.transact_eq, hwork] at hdone
    dsimp only at hdone
    rcases hundo : (c.undo request (c.workUses request t.commits) e).1 with e' | r | reason
    · rw [hundo] at hdone
      cases hdone
    · exact absurd hundo (hkept r)
    · rw [hundo] at hdone
      cases hdone
  | ok r =>
    obtain ⟨-, hrespond, -⟩ := Connection.work_eq_ok_iff.1 hwork
    obtain ⟨name, closed, hstore, hrun⟩ := callProcedure_of_work_ok h hwork
    obtain ⟨hworld, ⟨hset, -⟩ | ⟨e, -, herror⟩⟩ := publish_run t name r closed
    · rw [hstore] at hset hworld
      exact ⟨r, hrespond, hset, by rw [hrun, hworld]⟩
    · rw [hrun, herror] at hdone
      cases hdone

/-- What a task writes under its scope, in order: what its output parameters offer, what is
published of it besides, the result sets, and the number of changed rows. -/
def published (request : Request) (c : Connection) : List (String × Value) :=
  Response.offered request.params c.returned ++
    Response.mirrored (Response.offered request.params c.returned) ++
    [("ResultSet", Connection.resultSets c.results),
      ("UpdateCount", .int (Connection.changes c.results).sum)]

/-- **Behind a task that is done**, each name that it wrote has the last value written under it. -/
theorem lookup?_of_done (h : t.Opens env w request c v) {output : String} {next : Option String}
    (hdone : (t.callProcedure env w).1 = .ok (.done output next)) (hnext : c.hasNext = true)
    {scope : String} (hscope : t.scope.text = .ok scope) (htrim : trim scope = scope)
    (hnames : ∀ p ∈ request.params, p.direction.isOutput = true →
      trim p.outputName = p.outputName) :
    IsName scope ∧ ∀ name, (t.callProcedure env w).2.store.lookup? (scope, name) =
      (Entries.lastNamed name (published request c)).or (w.store.lookup? (scope, name)) := by
  obtain ⟨r, hrespond, hset, hstore⟩ := publishes_of_done h hdone
  obtain ⟨hsets, hupdates, houtputs⟩ := Response.respond_spec hnext hrespond
  obtain ⟨outputs, hpublication, hmembers, hlast⟩ := Response.publication_spec houtputs
  rw [hpublication] at hset hstore
  refine ⟨Store.isName_of_setKeys t.scope_ne_null hscope htrim (by simp) hset, fun name => ?_⟩
  rw [hstore, Store.setKeys_spec t.scope_ne_null hscope htrim _ ?_ hset]
  · rw [published, hsets, hupdates]
    simp only [Entries.lastNamed_append, hlast]
  · -- every name that is written is trimmed: those of outputs, and the fixed ones
    intro n hn
    simp only [List.map_append, List.mem_append, List.map_cons, List.map_nil] at hn
    rcases hn with (hn | hn) | hn
    · obtain ⟨m, hm, rfl⟩ := List.mem_map.1 ((hmembers n).1 hn)
      obtain ⟨p, hp, hout, hname⟩ := Response.mem_offered hm
      exact Parameter.trim_of_mem_outputNames (hnames p hp hout) hname
    · obtain ⟨m, hm, rfl⟩ := List.mem_map.1 hn
      have hfixed : ∀ k ∈ Response.responseNames.map (·.2), trim k = k := by decide
      exact hfixed m.1 (Response.mem_mirrored hm)
    · have hfixed : ∀ k ∈ ["ResultSet", "UpdateCount"], trim k = k := by decide
      exact hfixed n hn

/-- **Everything a procedure returned is addressable.** A path through the result sets leads to the
value of the last column of a name in a row, and to null where there is no such result or row; the
number of changed rows is the sum over the results without columns; and each output is found under
its names, unless something that is written later has the same name. Only an index with more digits
than can be read is refused, where a shorter one without anything at it gives null. -/
theorem callProcedure_addressable (h : t.Opens env w request c v) {output : String}
    {next : Option String} (hdone : (t.callProcedure env w).1 = .ok (.done output next))
    (hnext : c.hasNext = true) {scope : String} (hscope : t.scope.text = .ok scope)
    (htrim : trim scope = scope) (hplain : Path.IsPlain scope)
    (hnames : ∀ p ∈ request.params, p.direction.isOutput = true →
      trim p.outputName = p.outputName) :
    (∀ i j column, Path.IsQuotable column →
      (Path.Fits i ∧ Path.Fits j →
        (t.callProcedure env w).2.store.get (.str (Path.cellText scope i j column)) =
          .ok (Connection.cell c.results i j column)) ∧
      (¬ (Path.Fits i ∧ Path.Fits j) → ∃ n,
        (t.callProcedure env w).2.store.get (.str (Path.cellText scope i j column)) =
          .error (.value (.integerTooLong (some n))))) ∧
    (t.callProcedure env w).2.store.lookup? (scope, "UpdateCount") =
      some (.int (Connection.changes c.results).sum) ∧
    ∀ name, (t.callProcedure env w).2.store.lookup? (scope, name) =
      (Entries.lastNamed name (published request c)).or (w.store.lookup? (scope, name)) := by
  obtain ⟨hname, hfound⟩ := lookup?_of_done h hdone hnext hscope htrim hnames
  have hvalue : ∀ e, Path.ofValue (.str e) = Path.parse e := fun _ => rfl
  refine ⟨fun i j column hcolumn => ⟨fun ⟨hi, hj⟩ => ?_, fun hlong => ?_⟩, ?_, hfound⟩
  · have hsets : (t.callProcedure env w).2.store.lookup? (scope, "ResultSet") =
        some (Connection.resultSets c.results) := by
      rw [hfound, published, Entries.lastNamed_append]
      rfl
    rw [Store.get, hvalue, Path.parse_cellText hname hplain hcolumn hi hj]
    simp only [Store.read, Path.base, hsets]
    exact drill_resultSets c.results i j column
  · obtain ⟨n, hpath⟩ := Path.parse_cellText_long hname hplain hcolumn hlong
    refine ⟨n, ?_⟩
    rw [Store.get, hvalue, hpath]
  · rw [hfound, published, Entries.lastNamed_append]
    rfl

/-- A task that calls for orders, with an output of two names. -/
def ordersTask : Task :=
  .mk "a" "stored_procedure" .null .null .null .stop [(.str "procedure", .str "P"),
    (.str "connection", .str "main"), (.str "params", .list [
      .dict [(.str "name", .str "@Total"), (.str "direction", .str "OUT"),
        (.str "alias", .str "Sum")]])] []

/-- A connection that gives one order, with two columns of one name, behind it a number of changed
rows, and a value for the output. -/
def givingOrders : Connection where
  opening := .ok ()
  cursor := .ok ()
  call := .ok (.list [.int 5])
  results := [⟨some ["ID", "NAME", "ID"], .ok [[.int 1, .str "x", .int 2]], some (-1), .ok ()⟩,
    ⟨none, .ok [], some 3, .ok ()⟩]
  hasNext := true
  commit := .ok ()
  hasRollback := true

/-- What a run of the task finds. -/
def ordersSurroundings : Surroundings := ⟨⟨"", []⟩, [(.str "main", .ready givingOrders)], []⟩

/-- The request of the task. -/
def ordersRequest : Request :=
  ⟨"P", .null, [⟨"@Total", .output, .null, .null, .str "Sum"⟩]⟩

theorem ordersTask_opens : ordersTask.Opens ordersSurroundings emptyWorld ordersRequest
    givingOrders (emptyWorld.after [.connect "main"]) :=
  ⟨rfl, ⟨none, rfl⟩, rfl⟩

theorem ordersTask_done : ∃ output,
    (ordersTask.callProcedure ordersSurroundings emptyWorld).1 = .ok (.done output none) :=
  ⟨_, rfl⟩

theorem ordersTask_names : ∀ p ∈ ordersRequest.params, p.direction.isOutput = true →
    trim p.outputName = p.outputName := by
  simp only [ordersRequest, List.mem_singleton, forall_eq]
  decide

/-- The second column of one name is the one that is found, nothing is at the second result, and the
output is found under its other name. -/
theorem callProcedure_addressable_orders :
    (ordersTask.callProcedure ordersSurroundings emptyWorld).2.store.get
        (.str (Path.cellText "Taska" 0 0 "ID")) = .ok (.int 2) ∧
      (ordersTask.callProcedure ordersSurroundings emptyWorld).2.store.get
        (.str (Path.cellText "Taska" 1 0 "ID")) = .ok .null ∧
      (ordersTask.callProcedure ordersSurroundings emptyWorld).2.store.lookup?
        ("Taska", "UpdateCount") = some (.int 3) ∧
      (ordersTask.callProcedure ordersSurroundings emptyWorld).2.store.lookup?
        ("Taska", "Sum") = some (.int 5) := by
  obtain ⟨output, hdone⟩ := ordersTask_done
  have hscope : ordersTask.scope.text = .ok "Taska" := rfl
  obtain ⟨hcells, hcount, hnames⟩ := callProcedure_addressable ordersTask_opens hdone rfl hscope
    (by decide) (by decide) ordersTask_names
  have hsmall : ∀ i < 10, Path.Fits i := by
    intro i hi
    rw [Path.Fits, digitsOfNat_small hi, List.length_singleton, maxIntegerDigits]
    omega
  have hcolumn : Path.IsQuotable "ID" := ⟨by decide, by decide, by decide⟩
  refine ⟨?_, ?_, hcount, (hnames "Sum").trans rfl⟩
  · exact (hcells 0 0 "ID" hcolumn).1 ⟨hsmall 0 (by omega), hsmall 0 (by omega)⟩
  · exact (hcells 1 0 "ID" hcolumn).1 ⟨hsmall 1 (by omega), hsmall 0 (by omega)⟩

/-- An index far behind the last result does not give null if it is too long to be read. -/
theorem ordersTask_longIndex :
    (∃ output, (ordersTask.callProcedure ordersSurroundings emptyWorld).1 =
        .ok (.done output none)) ∧
      Connection.cell givingOrders.results Path.longIndex 0 "ID" = .null ∧
      (ordersTask.callProcedure ordersSurroundings emptyWorld).2.store.get
        (.str (Path.cellText "Taska" Path.longIndex 0 "ID")) ≠ .ok .null := by
  refine ⟨ordersTask_done, ?_, ?_⟩
  · have hpos : 0 < Path.longIndex := Nat.pow_pos (by omega)
    have hnone : (Connection.tables givingOrders.results)[Path.longIndex]? = none :=
      List.getElem?_eq_none (by show 1 ≤ Path.longIndex; omega)
    rw [Connection.cell, hnone]
  · obtain ⟨n, hpath⟩ : ∃ n, Path.parse (Path.cellText "Taska" Path.longIndex 0 "ID") =
        .error (.value (.integerTooLong (some n))) :=
      Path.parse_cellText_long (by decide) (by decide) ⟨by decide, by decide, by decide⟩
        fun h => Path.not_fits_longIndex h.1
    have hvalue : ∀ e, Path.ofValue (.str e) = Path.parse e := fun _ => rfl
    rw [Store.get, hvalue, hpath]
    simp

end Task

end Runbook
