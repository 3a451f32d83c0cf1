import Runbook.Proofs.Batching
import Runbook.Proofs.JsonGrammar
import Runbook.Proofs.Results

/-!
# Documents on lines

A file with a document on each line has the rows of its documents one after another: those that
the array at the same path has in a file that holds the document alone.

* `Json.Derives.unspaced`: no text of a value ends in white space.
* `Json.parse_line`: a line is read as the document on it is, with or without its line feed.
* `Lined`: lines with their endings, and `unifyLines_lined`: the same with line feeds.
* `exists_lineDocuments`: **the records of lines**, line by line.
* `rows_lineDocuments`: **the rows of lines** are those of the documents alone.
-/

namespace Runbook

open Runbook.Text

namespace Json

/-! ### How texts end -/

/-- A text whose last character is no white space. -/
def Unspaced (cs : List Char) : Prop :=
  ∃ c, cs.getLast? = some c ∧ isSpace c = false

section Endings

variable {cs : List Char} {p : Part}

theorem Unspaced.behind (h : Unspaced cs) (front : List Char) : Unspaced (front ++ cs) := by
  obtain ⟨c, hc, hspace⟩ := h
  exact ⟨c, by rw [List.getLast?_append, hc]; rfl, hspace⟩

theorem IsDigits.unspaced (h : IsDigits cs) : Unspaced cs := by
  have hlast := List.getLast?_eq_some_getLast h.ne_nil
  exact ⟨_, hlast, (beginsPart_digit (h.digits _ (List.getLast_mem h.ne_nil))).isSpace_eq⟩

theorem IsNumeral.unspaced (h : IsNumeral cs) : Unspaced cs := by
  obtain ⟨hwhole, hfraction, hpower⟩ := h
  rcases hpower with rfl | ⟨m, sign, -, ds, -, -, hds, rfl⟩
  · rcases hfraction with rfl | ⟨ds, hds, rfl⟩
    · rw [List.append_nil, List.append_nil]
      rcases hwhole with rfl | ⟨hds, -⟩
      · exact ⟨'0', rfl, by decide⟩
      · exact hds.unspaced
    · rw [List.append_nil]
      exact (hds.unspaced.behind ['.']).behind _
  · exact (((hds.unspaced.behind sign).behind [m]).behind _).behind _

theorem IsStringBody.unspaced (h : IsStringBody cs) : Unspaced cs := by
  induction h with
  | close => exact ⟨'"', rfl, by decide⟩
  | code _ _ ih => exact ih.behind ['\\', 'u', _, _, _, _]
  | escape _ _ _ ih => exact ih.behind ['\\', _]
  | plain _ _ _ _ ih => exact ih.behind [_]

/-- **Every derivation ends** with a character that is no white space. -/
theorem Derives.unspaced (h : Derives p cs) : Unspaced cs := by
  have hbracket : Unspaced [']'] := ⟨']', rfl, by decide⟩
  have hbrace : Unspaced ['\x7d'] := ⟨'\x7d', rfl, by decide⟩
  induction h with
  | @word cs v h =>
    simp only [words, List.mem_cons, List.not_mem_nil, or_false, Prod.mk.injEq] at h
    rcases h with ⟨rfl, -⟩ | ⟨rfl, -⟩ | ⟨rfl, -⟩ | ⟨rfl, -⟩ | ⟨rfl, -⟩ | ⟨rfl, -⟩ <;>
      exact ⟨_, rfl, by decide⟩
  | positive h => exact h.unspaced
  | negative h => exact h.unspaced.behind ['-']
  | string h => exact h.unspaced.behind ['"']
  | emptyArray _ => exact hbracket.behind ('[' :: _)
  | array _ _ ih => exact ih.behind ('[' :: _)
  | emptyObject _ => exact hbrace.behind ('\x7b' :: _)
  | object _ _ ih => exact ih.behind ('\x7b' :: _)
  | lastItem _ _ => exact (hbracket.behind _).behind _
  | moreItems _ _ _ _ _ ih => exact ((ih.behind (',' :: _)).behind _).behind _
  | lastMember _ _ _ _ _ =>
    exact ((((hbrace.behind _).behind _).behind (':' :: _)).behind _).behind ('"' :: _)
  | moreMembers _ _ _ _ _ _ _ _ ih =>
    exact
      (((((ih.behind (',' :: _)).behind _).behind _).behind (':' :: _)).behind _).behind ('"' :: _)

end Endings

/-! ### Lines as texts of values -/

section Lines

variable {cs rest : List Char} {v : Value}

theorem IsGap.ends (h : IsGap rest) : Ends rest :=
  fun c _ ht => goesOn_of_isSpace (h c (ht ▸ List.mem_cons_self))

theorem skipSpace_line (h : skipSpace cs ≠ []) :
    skipSpace (cs ++ ['\n']) = skipSpace cs ++ ['\n'] := by
  rw [skipSpace, List.dropWhile_append, ← skipSpace, if_neg (by simpa using h)]

/-- **A line is read as the text in front of its line feed.** -/
theorem parse_line : parse (cs ++ ['\n']) = .ok v ↔ parse cs = .ok v := by
  have hfeed : IsGap ['\n'] := List.all_eq_true.1 rfl
  constructor
  · intro h
    obtain ⟨hmark, rest, hread, hrest⟩ := parse_eq_ok_iff.1 h
    obtain ⟨front, hne, hfront, hvalue⟩ := readValue_front hread
    obtain ⟨x, hx, hjson⟩ := exists_isJson hread
    obtain rfl : front = x := List.append_cancel_right (hfront.symm.trans hx)
    have hfull : skipSpace cs ≠ [] := fun hnil => by
      rw [skipSpace, List.dropWhile_append, ← skipSpace, hnil] at hfront
      exact hne (List.append_eq_nil_iff.1 hfront.symm).1
    rw [skipSpace_line hfull] at hfront
    rcases List.eq_nil_or_concat rest with rfl | ⟨tail, c, rfl⟩
    · -- the line feed would be the end of the value
      obtain ⟨c, hc, hspace⟩ := hjson.unspaced
      rw [List.append_nil] at hfront
      rw [← hfront, List.getLast?_concat] at hc
      cases hc
      cases hspace
    · rw [List.concat_eq_append, ← List.append_assoc] at hfront
      obtain ⟨hskip, -⟩ := List.append_inj' hfront rfl
      have htail : IsGap tail := fun d hd => hrest d (by simp [hd])
      refine parse_eq_ok_iff.2 ⟨fun t ht => hmark (t ++ ['\n']) (by rw [ht]; rfl), tail, ?_, htail⟩
      rw [hskip]
      exact hvalue tail fun _ => htail.ends
  · intro h
    obtain ⟨hmark, rest, hread, hrest⟩ := parse_eq_ok_iff.1 h
    obtain ⟨front, hne, hfront, hvalue⟩ := readValue_front hread
    refine parse_eq_ok_iff.2 ⟨fun t ht => ?_, rest ++ ['\n'], ?_, hrest.append hfeed⟩
    · cases cs with
      | nil => cases (List.cons.inj ht).1
      | cons c cs => exact hmark cs (by rw [(List.cons.inj ht).1])
    · rw [skipSpace_line (by simp [hfront, hne]), hfront, List.append_assoc]
      exact hvalue _ fun _ => (hrest.append hfeed).ends

end Lines

end Json

namespace Records

/-! ### Texts of lines -/

/-- A text without line endings. -/
structure IsLine (cs : List Char) : Prop where
  no_feed : '\n' ∉ cs
  no_return : '\r' ∉ cs

/-- What ends a line. -/
def lineEndings : List (List Char) := [['\n'], ['\r'], ['\r', '\n']]

/-- Lines with endings behind them; the last one may lack its own. -/
inductive Lined (endings : List (List Char)) : List (List Char) → List Char → Prop
  | nil : Lined endings [] []
  | last {line} (h : IsLine line) : Lined endings [line] line
  | line {line ending lines rest} (h : IsLine line) (hending : ending ∈ endings)
    (hrest : Lined endings lines rest) : Lined endings (line :: lines) (line ++ (ending ++ rest))

/-- The documents on lines: the lines that are not blank. -/
def documents (lines : List (List Char)) : List (List Char) :=
  lines.filter fun line => !line.all isBlank

section Lined

variable {line text rest : List Char} {lines : List (List Char)}

theorem documents_cons (line : List Char) (lines : List (List Char)) :
    documents (line :: lines) = documents [line] ++ documents lines :=
  List.filter_append [line] lines

theorem documents_blank (h : line.all isBlank = true) :
    documents (line :: lines) = documents lines := by
  rw [documents, List.filter_cons_of_neg (by simp [h]), documents]

theorem documents_document (h : line.all isBlank = false) :
    documents (line :: lines) = line :: documents lines := by
  rw [documents, List.filter_cons_of_pos (by simp [h]), documents]

/-- Of a text that begins with a line feed, the first line is empty. -/
theorem Lined.behind_feed (h : Lined [['\n']] lines ('\n' :: rest)) :
    ∃ others, lines = [] :: others ∧ Lined [['\n']] others rest := by
  generalize htext : '\n' :: rest = text at h
  cases h with
  | nil => cases htext
  | last h => exact absurd (htext ▸ List.mem_cons_self) h.no_feed
  | @line line ending others tail h hending hrest =>
    obtain rfl := List.mem_singleton.1 hending
    cases line with
    | nil => exact ⟨others, rfl, (List.cons.inj htext).2 ▸ hrest⟩
    | cons c line =>
      rw [← (List.cons.inj htext).1] at h
      exact absurd List.mem_cons_self h.no_feed

/-- **Lines with any endings** have the documents of lines with line feeds. An empty line is lost
where a line feed stands behind a carriage return that ends a line. -/
theorem unifyLines_lined (h : Lined lineEndings lines text) :
    ∃ others, Lined [['\n']] others (unifyLines text) ∧ documents others = documents lines := by
  induction h with
  | nil => exact ⟨[], .nil, rfl⟩
  | @last line h =>
    rw [Document.unifyLines_eq_self h.no_return]
    exact ⟨[line], .last h, rfl⟩
  | @line line ending lines rest h hending hrest ih =>
    obtain ⟨others, hothers, hdocuments⟩ := ih
    -- the same line, with a line feed and the others behind it
    have hline : ∀ {others behind}, unifyLines (ending ++ rest) = '\n' :: behind →
        Lined [['\n']] others behind → documents others = documents lines →
        ∃ others, Lined [['\n']] others (unifyLines (line ++ (ending ++ rest))) ∧
          documents others = documents (line :: lines) := by
      intro others behind hunified hothers hdocuments
      have hlines : Lined [['\n']] (line :: others) (line ++ (['\n'] ++ behind)) :=
        .line h List.mem_cons_self hothers
      refine ⟨line :: others, ?_, ?_⟩
      · rwa [Document.unifyLines_append h.no_return, hunified]
      · rw [documents_cons, hdocuments, ← documents_cons]
    simp only [lineEndings, List.mem_cons, List.not_mem_nil, or_false] at hending
    rcases hending with rfl | rfl | rfl
    · exact hline rfl hothers hdocuments
    · cases rest with
      | nil => exact hline rfl hothers hdocuments
      | cons c rest =>
        by_cases hc : c = '\n'
        · rw [hc] at hothers hline ⊢
          have hfeed : Lined [['\n']] others ('\n' :: unifyLines rest) := hothers
          obtain ⟨others, rfl, hbehind⟩ := hfeed.behind_feed
          rw [documents_blank rfl] at hdocuments
          exact hline rfl hbehind hdocuments
        · refine hline ?_ hothers hdocuments
          rw [List.singleton_append, unifyLines]
          simpa using hc
    · exact hline rfl hothers hdocuments

end Lined

/-! ### The records of lines -/

/-- The records of the array at a path of a document. -/
def recordsAt (path : String) (doc : List Char) : Except Error (List Value) :=
  (Json.parse doc).map fun root => ((navigate root path).map recordsOf).getD []

/-- What documents hold one after another, up to the first one that cannot be read. -/
inductive Gathered (read : List Char → Except Error (List Value)) :
    List (List Char) → List Value → Option Error → Prop
  | done : Gathered read [] [] none
  | failed {doc docs d e} (h : read doc = .error d) : Gathered read (doc :: docs) [] (some e)
  | more {doc docs items records fault} (h : read doc = .ok items)
    (hrest : Gathered read docs records fault) :
    Gathered read (doc :: docs) (items ++ records) fault

section Records

variable {line ending rest text : List Char} {lines docs : List (List Char)} {path : String}
  {number : Nat} {source behind : Source} {records items : List Value} {fault : Option Error}
  {columns : List Column}

theorem parse_ending {v : Value} (hending : ending = [] ∨ ending = ['\n']) :
    Json.parse (line ++ ending) = .ok v ↔ Json.parse line = .ok v := by
  rcases hending with rfl | rfl
  · rw [List.append_nil]
  · exact Json.parse_line

/-- **The records of a line** are those of the document on it. -/
theorem lineRecords_ending (hblank : line.all isBlank = false)
    (hending : ending = [] ∨ ending = ['\n']) :
    Cursor.lineRecords number (some path) (line ++ ending) = .ok items ↔
      recordsAt path line = .ok items := by
  rw [Cursor.lineRecords, if_neg (by simp [hblank]), recordsAt]
  cases hparse : Json.parse line with
  | ok root =>
    rw [(parse_ending hending).2 hparse]
    rfl
  | error d =>
    cases hline : Json.parse (line ++ ending) with
    | ok root =>
      rw [(parse_ending hending).1 hline] at hparse
      cases hparse
    | error e =>
      -- neither reading has records then
      constructor
      · intro h
        cases e <;> cases h
      · intro h
        cases h

theorem lineRecords_blank (hblank : line.all isBlank = true)
    (hending : ending = [] ∨ ending = ['\n']) :
    Cursor.lineRecords number (some path) (line ++ ending) = .ok [] := by
  rw [Cursor.lineRecords, if_pos]
  rcases hending with rfl | rfl <;> simp [hblank, isBlank]

/-- **One line** in front of others: its document, if it is not blank, comes first. -/
theorem gathered_line {others : List (List Char)} (hending : ending = [] ∨ ending = ['\n'])
    (hrest : LineSequence (some path) none (number + 1) others records fault)
    (hdocs : Gathered (recordsAt path) (documents lines) records fault) :
    ∃ records fault,
      LineSequence (some path) none number ((line ++ ending) :: others) records fault ∧
        Gathered (recordsAt path) (documents (line :: lines)) records fault := by
  have hspec := lineRecords_spec (some path) (number + 1) (line ++ ending)
  cases hblank : line.all isBlank with
  | true =>
    rw [lineRecords_blank hblank hending] at hspec
    rw [documents_blank hblank]
    exact ⟨_, fault, .line hspec hrest, hdocs⟩
  | false =>
    rw [documents_document hblank]
    cases hline : Cursor.lineRecords (number + 1) (some path) (line ++ ending) with
    | ok items =>
      rw [hline] at hspec
      exact ⟨_, fault, .line hspec hrest, .more ((lineRecords_ending hblank hending).1 hline) hdocs⟩
    | error e =>
      rw [hline] at hspec
      cases hrecords : recordsAt path line with
      | ok items =>
        rw [(lineRecords_ending hblank hending).2 hrecords] at hline
        cases hline
      | error d => exact ⟨[], some e, .invalid hspec, .failed hrecords⟩

/-- **The records of lines** are those of their documents: by induction on the lines. -/
theorem exists_gathered (h : Lined [['\n']] lines text) (path : String) (number : Nat) :
    ∃ records fault, LineSequence (some path) none number (linesOf text) records fault ∧
      Gathered (recordsAt path) (documents lines) records fault := by
  induction h generalizing number with
  | nil => exact ⟨[], none, .ended, .done⟩
  | @last line h =>
    by_cases hne : line = []
    · rw [hne]
      exact ⟨[], none, .ended, .done⟩
    · have hsequence : ∃ records fault,
          LineSequence (some path) none number [line ++ []] records fault ∧
            Gathered (recordsAt path) (documents [line]) records fault :=
        gathered_line (.inl rfl) .ended .done
      rw [List.append_nil] at hsequence
      rwa [linesOf_last h.no_feed hne]
  | @line line ending lines rest h hending _ ih =>
    obtain rfl := List.mem_singleton.1 hending
    obtain ⟨records, fault, hrest, hdocs⟩ := ih (number + 1)
    have hlines : linesOf (line ++ (['\n'] ++ rest)) = (line ++ ['\n']) :: linesOf rest :=
      linesOf_feed h.no_feed rest
    rw [hlines]
    exact gathered_line (.inr rfl) hrest hdocs

end Records

/-! ### The rows of lines -/

/-- A file that holds a text. -/
def Holds (files : FileTree) (file : Location) (text : List Char) : Prop :=
  ∃ c, files.read file = .ok c ∧ c.decode = ⟨text, none⟩

/-- The rows that the array at a path has in every file that holds a document alone, with or without
a line ending behind it. -/
def GivesAlone (path : Option String) (columns : List Value) (doc : List Char) (rows : List Value) :
    Prop :=
  ∀ files file chunk, ∀ ending ∈ [] :: lineEndings, Holds files file (doc ++ ending) →
    ∃ r, (Reader.ofSettings ⟨file, false, path, columns⟩ chunk).openFile files = .ok r ∧
      ∀ size, (r.readAll size).1 = .ok rows

/-- The rows of the array at a path of a document. -/
def rowsAt (columns : List Column) (path : String) (doc : List Char) : Except Error (List Value) :=
  (recordsAt path doc).bind fun records => records.mapM (rowOf columns)

section Rows

variable {read : List Char → Except Error (List Value)} {docs lines : List (List Char)}
  {doc text : List Char} {records rows : List Value} {fault : Option Error}
  {columns : List Column} {names : List String} {path : String} {files : FileTree}
  {file : Location}

theorem gathered_rows (h : Gathered (recordsAt path) docs records fault)
    (hrows : records.mapM (rowOf columns) = .ok rows) :
    Gathered (rowsAt columns path) docs rows fault := by
  induction h generalizing rows with
  | done =>
    cases hrows
    exact .done
  | failed h =>
    cases hrows
    exact .failed (by rw [rowsAt, h]; rfl)
  | more h _ ih =>
    obtain ⟨front, back, hfront, hback, rfl⟩ := mapM_append_ok hrows
    exact .more (by rw [rowsAt, h]; exact hfront) (ih hback)

theorem Gathered.fault_eq_none (h : Gathered read docs records fault)
    (hdocs : ∀ doc ∈ docs, ∃ items, read doc = .ok items) : fault = none := by
  induction h with
  | done => rfl
  | failed h =>
    obtain ⟨items, hitems⟩ := hdocs _ List.mem_cons_self
    rw [h] at hitems
    cases hitems
  | more _ _ ih => exact ih fun doc hdoc => hdocs doc (List.mem_cons_of_mem _ hdoc)

/-- All of it is there exactly if each document can be read. -/
theorem Gathered.outcome_iff {found : List Value} (h : Gathered read docs rows fault) :
    outcome rows fault = .ok found ↔
      ∃ parts, List.Forall₂ (fun doc part => read doc = .ok part) docs parts ∧
        parts.flatten = found := by
  induction h generalizing found with
  | done =>
    simp only [List.forall₂_nil_left_iff, exists_eq_left, List.flatten_nil, outcome,
      Except.ok.injEq]
  | failed h =>
    refine ⟨fun h => (nomatch h), fun ⟨parts, hparts, _⟩ => ?_⟩
    obtain ⟨part, _, hpart, -⟩ := List.forall₂_cons_left_iff.1 hparts
    rw [h] at hpart
    cases hpart
  | @more doc docs items rows fault h _ ih =>
    rw [← Reader.outcome_append]
    constructor
    · intro hfound
      cases hrest : outcome rows fault with
      | error e =>
        rw [hrest] at hfound
        cases hfound
      | ok others =>
        obtain ⟨parts, hparts, hflatten⟩ := ih.1 hrest
        rw [hrest] at hfound
        exact ⟨items :: parts, .cons h hparts, by
          rw [List.flatten_cons, hflatten]
          exact Except.ok.inj hfound⟩
    · rintro ⟨_, hall, rfl⟩
      obtain ⟨part, parts, hpart, hparts, rfl⟩ := List.forall₂_cons_left_iff.1 hall
      rw [ih.2 ⟨parts, hparts, rfl⟩, Except.ok.inj (h.symm.trans hpart)]
      rfl

theorem unifyLines_alone {ending : List Char} (hline : IsLine doc)
    (hending : ending ∈ [] :: lineEndings) :
    ∃ feed, (feed = [] ∨ feed = ['\n']) ∧ unifyLines (doc ++ ending) = doc ++ feed := by
  simp only [lineEndings, List.mem_cons, List.not_mem_nil, or_false] at hending
  rw [Document.unifyLines_append hline.no_return]
  rcases hending with rfl | rfl | rfl | rfl
  · exact ⟨[], .inl rfl, rfl⟩
  all_goals exact ⟨['\n'], .inr rfl, rfl⟩

/-- Reading a document alone starts at the records of the array at the path in it. -/
theorem start_alone_iff {columns : List Value} {chunk : Nat} {ending : List Char} {c : Cursor}
    (hline : IsLine doc) (hending : ending ∈ [] :: lineEndings)
    (hholds : Holds files file (doc ++ ending)) :
    (Reader.ofSettings ⟨file, false, some path, columns⟩ chunk).start files = .ok c ↔
      ∃ items, recordsAt path doc = .ok items ∧ c = .list items := by
  obtain ⟨content, hread, hdecode⟩ := hholds
  obtain ⟨feed, hfeed, hunify⟩ := unifyLines_alone hline hending
  have htext : files.readText file = .ok (doc ++ feed) := by
    simp only [FileTree.readText, hread, hdecode, hunify]
  simp only [Reader.start, Reader.ofSettings, Bool.false_eq_true, if_false, htext, recordsAt]
  cases hparse : Json.parse doc with
  | ok root =>
    rw [(parse_ending hfeed).2 hparse]
    simp [Except.map, eq_comm]
  | error d =>
    cases htail : Json.parse (doc ++ feed) with
    | ok root =>
      rw [(parse_ending hfeed).1 htail] at hparse
      cases hparse
    | error e => simp [Except.map]

/-- **A document alone** has the rows of the array at the path in it. -/
theorem givesAlone_iff (hcolumns : (names.map Value.str).mapM Column.ofValue = .ok columns)
    (hline : IsLine doc) :
    GivesAlone (some path) (names.map .str) doc rows ↔ rowsAt columns path doc = .ok rows := by
  constructor
  · intro h
    have hholds : Holds (Document.soleTree doc) Document.soleFile (doc ++ []) :=
      ⟨.text doc, rfl, by rw [List.append_nil]; rfl⟩
    obtain ⟨r, hopen, hread⟩ := h _ _ 1 [] List.mem_cons_self hholds
    obtain ⟨-, c, hstart, -⟩ := Reader.exists_of_openFile hopen
    obtain ⟨items, hitems, rfl⟩ := (start_alone_iff hline List.mem_cons_self hholds).1 hstart
    obtain ⟨opened, found, hopened, hrows, hall⟩ :=
      Reader.exists_rows hcolumns hstart (yields_list items)
    obtain rfl := Except.ok.inj (hopen.symm.trans hopened)
    obtain rfl : rows = found := Except.ok.inj ((hread 1).symm.trans (hall 1))
    rw [rowsAt, hitems]
    exact hrows
  · intro h files file chunk ending hending hholds
    cases hitems : recordsAt path doc with
    | error e =>
      rw [rowsAt, hitems] at h
      cases h
    | ok items =>
      have hstart : (Reader.ofSettings ⟨file, false, some path, names.map .str⟩ chunk).start files =
          .ok (.list items) := (start_alone_iff hline hending hholds).2 ⟨items, hitems, rfl⟩
      obtain ⟨opened, found, hopened, hrows, hall⟩ :=
        Reader.exists_rows hcolumns hstart (yields_list items)
      rw [rowsAt, hitems] at h
      obtain rfl : rows = found := Except.ok.inj (h.symm.trans hrows)
      exact ⟨opened, hopened, hall⟩

end Rows

section Equivalence

variable {lines : List (List Char)} {text : List Char} {files : FileTree} {file : Location}
  {given : String}

theorem Lined.isLine {endings : List (List Char)} (h : Lined endings lines text) :
    ∀ line ∈ lines, IsLine line := by
  induction h with
  | nil => simp
  | last h => simpa using h
  | line h _ _ ih => exact List.forall_mem_cons.2 ⟨h, ih⟩

/-- **Lines are documents one after another.** A file of lines, with any line endings and with blank
lines among them, is read into rows exactly if each document on them is read alone, and its rows are
those of the documents put together. In particular it is if each document is JSON. -/
theorem rows_lineDocuments (hlined : Lined lineEndings lines text) (hfile : Holds files file text)
    (hgiven : isBlankText given = false) (names : List String) (chunk : Nat) :
    ∃ path r, arrayPath (.str given) = .ok (some path) ∧
      (Reader.ofSettings ⟨file, true, some path, names.map .str⟩ chunk).openFile files = .ok r ∧
      ∀ size,
        (∀ rows, (r.readAll size).1 = .ok rows ↔ ∃ parts,
          List.Forall₂ (GivesAlone (some path) (names.map .str)) (documents lines) parts ∧
            parts.flatten = rows) ∧
        ((∀ doc ∈ documents lines, ∃ root, Json.parse doc = .ok root) →
          ∃ rows, (r.readAll size).1 = .ok rows) := by
  have hpath : arrayPath (.str given) = .ok (some (trim given)) := by
    simp [arrayPath, Value.asText?, hgiven]
  obtain ⟨columns, hcolumns⟩ := mapM_columns names
  obtain ⟨content, hread, hdecode⟩ := hfile
  obtain ⟨others, hothers, hdocuments⟩ := unifyLines_lined hlined
  obtain ⟨records, fault, hsequence, hgathered⟩ := exists_gathered hothers (trim given) 0
  rw [hdocuments] at hgathered
  have hstart :
      (Reader.ofSettings ⟨file, true, some (trim given), names.map .str⟩ chunk).start files =
      .ok (.lines [] 0 (some (trim given)) ⟨unifyLines text, none⟩) := by
    simp [Reader.start, Reader.ofSettings, hread, Source.ofContent_eq hdecode, Except.map]
  obtain ⟨r, rows, hopen, hrows, hall⟩ := Reader.exists_rows hcolumns hstart hsequence.yields
  have hlines : ∀ doc ∈ documents lines, IsLine doc :=
    fun doc hdoc => hlined.isLine doc (List.mem_of_mem_filter hdoc)
  refine ⟨_, r, hpath, hopen, fun size => ⟨fun found => ?_, fun hdocs => ⟨rows, ?_⟩⟩⟩
  · rw [hall, (gathered_rows hgathered hrows).outcome_iff]
    refine exists_congr fun parts => and_congr_left fun _ => ⟨fun h => ?_, fun h => ?_⟩
    · exact ((List.forall₂_and_left _ _).2 ⟨hlines, h⟩).imp
        fun _ _ hdoc => (givesAlone_iff hcolumns hdoc.1).2 hdoc.2
    · exact ((List.forall₂_and_left _ _).2 ⟨hlines, h⟩).imp
        fun _ _ hdoc => (givesAlone_iff hcolumns hdoc.1).1 hdoc.2
  · rw [hall, hgathered.fault_eq_none fun doc hdoc => ?_]
    · rfl
    · obtain ⟨root, hroot⟩ := hdocs doc hdoc
      exact ⟨_, by rw [recordsAt, hroot]; rfl⟩

/-- An object of one number. -/
def numberObject : List Char := "\x7b\"a\":".toList ++ '1' :: ['\x7d']

/-- Two such objects with different line endings, and a blank line between them. -/
def objectLines : List Char :=
  numberObject ++ (['\r', '\n'] ++ (['\t'] ++ (['\r'] ++ (numberObject ++ (['\n'] ++ [])))))

theorem rows_objectLines :
    Lined lineEndings [numberObject, ['\t'], numberObject] objectLines ∧
      Holds (Document.soleTree objectLines) Document.soleFile objectLines ∧
      isBlankText " a" = false ∧
      ∃ r, (Reader.ofSettings ⟨Document.soleFile, true, some "a", []⟩ 1).openFile
          (Document.soleTree objectLines) = .ok r ∧
        ∀ size, (r.readAll size).1 =
          .ok [.dict [(.str "value", .int 1)], .dict [(.str "value", .int 1)]] := by
  have hobject : IsLine numberObject := ⟨by decide, by decide⟩
  have hlined : Lined lineEndings [numberObject, ['\t'], numberObject] objectLines :=
    .line hobject (by decide) (.line ⟨by decide, by decide⟩ (by decide)
      (.line hobject (by decide) .nil))
  have hholds : Holds (Document.soleTree objectLines) Document.soleFile objectLines :=
    ⟨.text objectLines, rfl, rfl⟩
  have hgiven : isBlankText " a" = false := by decide
  have hparse : Json.parse numberObject = .ok (.dict [(.str "a", .int 1)]) :=
    Document.parse_field rfl
  have hrows : rowsAt [] "a" numberObject = .ok [.dict [(.str "value", .int 1)]] := by
    rw [rowsAt, recordsAt, hparse]
    rfl
  have hcolumns : (([] : List String).map Value.str).mapM Column.ofValue = .ok [] := rfl
  have halone : GivesAlone (some "a") [] numberObject [.dict [(.str "value", .int 1)]] :=
    (givesAlone_iff hcolumns hobject).2 hrows
  obtain ⟨path, r, hpath, hopen, hread⟩ := rows_lineDocuments hlined hholds hgiven [] 1
  obtain rfl : "a" = path := Option.some.inj (Except.ok.inj hpath)
  exact ⟨hlined, hholds, hgiven, r, hopen, fun size =>
    ((hread size).1 _).2 ⟨_, .cons halone (.cons halone .nil), rfl⟩⟩

end Equivalence

end Records

end Runbook
