import Runbook.Proofs.Interpolation
import Runbook.Proofs.JsonWriting
import Runbook.Proofs.ReadingBack
import Runbook.Proofs.Running
import Runbook.Run.Flow

/-!
# Copying a tree through its text

A template that is a single placeholder becomes the compact text of the list or the dictionary that
the placeholder stands for, and that text is not searched for placeholders. Reading it gives the
tree again, so a task that sets a variable to such a template in the JSON format copies the tree.

* `resolve_reference`: the text of a placeholder is that of its value.
* `storeFor_target`: where a task stores a value.
* `copies_tree`: a tree comes back from its text, and a task stores it.
-/

namespace Runbook

open Runbook.Text Runbook.Path Runbook.Json

/-- A scope or a key that a placeholder can be made of. -/
structure IsReferable (k : String) : Prop where
  is_name : IsName k
  is_plain : IsPlain k
  no_braces : '\x7b' ∉ k.toList ∧ '\x7d' ∉ k.toList

namespace Store

variable {s : Store} {scope key : String} {v : Value}

theorem isContent_joined (hscope : IsReferable scope) (hkey : IsReferable key) :
    Template.IsContent (joined scope key) := by
  refine ⟨by simp [joined], ?_, ?_⟩
  · simp [joined, hscope.no_braces.1, hkey.no_braces.1]
  · simp [joined, hscope.no_braces.2, hkey.no_braces.2]

/-- What stands between the braces of a placeholder is the scope and the key. -/
theorem parse_joined (hscope : IsReferable scope) (hkey : IsReferable key) :
    parse (String.ofList (joined scope key)) = .ok ⟨scope, key, []⟩ := by
  have hs := isBlankText_of_isName hscope.is_name
  have hk := isBlankText_of_isName hkey.is_name
  have hunwrap : unwrapChars (String.ofList (joined scope key)).toList =
      unwrapChars (reference scope key).toList := by
    -- there is no brace in front, so nothing but blanks is taken off either text
    have hbrace : '\x7b' ∉ trimChars (joined scope key) := fun h =>
      (isContent_joined hscope hkey).2.1 (mem_of_mem_trimChars h)
    rw [reference, wrapped, String.toList_ofList, String.toList_ofList, unwrapChars_written,
      unwrapChars]
    split
    · rename_i rest htrim
      rw [htrim] at hbrace
      exact absurd (by simp) hbrace
    · rfl
  obtain ⟨-, segments, htokens, hpath⟩ :=
    parse_ok_iff.1 (parse_reference hs hk hscope.is_plain hkey.is_plain)
  rw [hscope.is_name.2, hkey.is_name.2] at hpath
  have hblank : isBlankText (String.ofList (joined scope key)) = false := by
    have hpoint : isBlank '.' = false := by decide
    simp [isBlankText, joined, hpoint]
  exact parse_ok_iff.2 ⟨hblank, segments, by rw [hunwrap, htokens], hpath⟩

/-- **The text of a placeholder** is that of its value. -/
theorem resolve_reference (hscope : IsReferable scope) (hkey : IsReferable key)
    (hv : s.lookup? (scope, key) = some v) : s.resolve (reference scope key) = v.stringify := by
  rw [reference, wrapped, resolve_written (isContent_joined hscope hkey), fill,
    parse_joined hscope hkey]
  simp only [Path.base, hv, drill]
  cases v.stringify <;> simp [Except.map]

end Store

namespace Task

/-- The variable that a task stores a value in: that of a full name, or of a key in its scope. -/
def target? (t : Task) (name : String) : Option Base :=
  if isFullName name then Store.namedBase? (.str name) else Store.scopedBase? t.scope (.str name)

/-- A task that sets a variable to a template in the JSON format. -/
structure Copies (t : Task) (template : String) (b : Base) : Prop where
  kind : TaskKind.ofName t.type = .ok .assign
  value : t.required "value" = .ok (.str template)
  format : (t.settingOr "format" (.str "text")).isText "json" = true
  target : ∃ name text, t.required "var" = .ok name ∧ name.text = .ok text ∧ t.target? text = some b

variable {t : Task} {b : Base} {w : World}

/-- **Where a task stores a value.** -/
theorem storeFor_target {name : String} (h : t.target? name = some b) (v : Value) (w : World) :
    ∃ shown, storeFor t name v w = (.ok shown, { w with store := w.store.put b v }) := by
  have hwrite : ∀ {f : Store → Except Error Store}, f w.store = .ok (w.store.put b v) →
      Run.write f w = (.ok (), { w with store := w.store.put b v }) := by
    intro f hf
    simp only [Run.write, Run.onStore, hf]
  unfold target? at h
  unfold storeFor
  split at h
  · rename_i hfull
    rw [if_pos hfull]
    exact ⟨name, Run.bind_ok (hwrite (Store.assign_of_base w.store h v))⟩
  · rename_i hfull
    rw [if_neg hfull]
    obtain ⟨scopeText, _, hscope, -⟩ := Store.text_of_scopedBase? h
    refine ⟨Error.variableName scopeText name, ?_⟩
    have hset := hwrite (f := fun s => s.setScoped t.scope (.str name) v)
      (Store.setScoped_of_base w.store h v)
    exact (Run.bind_ok hset).trans (Run.bind_lift hscope _ _)

/-- **A copy** stores the value that the text of its template is read as. -/
theorem Copies.execute {template text : String} {v : Value} (h : t.Copies template b)
    (htext : w.store.resolve template = .ok text) (hread : (Value.str text).parseJson = .ok v)
    (env : Surroundings) (workers : Value) (nested : Option (Run (List NestedResult))) :
    ∃ output, t.execute env workers nested w =
      (.ok (.done output none), { w with store := w.store.put b v }) := by
  obtain ⟨name, nameText, hname, hnameText, htarget⟩ := h.target
  obtain ⟨shown, hstore⟩ := storeFor_target htarget v w
  have hplain : w.store.resolveValue (.str template) = .ok (.str text) := by
    simp only [Store.resolveValue, Value.asText?, htext, Except.map]
  have hvalue : readAs (t.settingOr "format" (.str "text")) (.str text) = .ok v := by
    rw [readAs, if_pos h.format]
    exact hread
  refine ⟨"Set " ++ shown, ?_⟩
  rw [Task.execute, Run.bind_lift h.kind]
  simp only
  rw [assign, Run.bind_lift hname, Run.bind_lift hnameText, Run.bind_lift h.value,
    Run.bind_ok (Run.store_run w), Run.bind_lift hplain, hvalue]
  exact Run.bind_ok hstore

end Task

namespace Store

theorem stringify_container {v : Value} (h : IsContainer v) : v.stringify = v.toJson := by
  cases v with
  | list items => rfl
  | dict entries => rfl
  | _ => cases h

/-- **A tree survives its text.** The text of a placeholder that stands for a list or a dictionary
is read as that very tree, whatever its strings hold and with its names in their order; so a task
that sets a variable to the placeholder in the JSON format stores the tree. -/
theorem copies_tree {s : Store} {scope key : String} {v : Value} (hscope : IsReferable scope)
    (hkey : IsReferable key) (hv : s.lookup? (scope, key) = some v) (htree : IsTree v)
    (hcontainer : IsContainer v) :
    (∃ text, s.resolve (reference scope key) = .ok text ∧ (Value.str text).parseJson = .ok v) ∧
      ∀ (t : Task) (b : Base) (w : World), t.Copies (reference scope key) b → w.store = s →
        ∀ env workers nested, ∃ output, t.execute env workers nested w =
          (.ok (.done output none), { w with store := s.put b v }) := by
  obtain ⟨cs, hcs, hparse⟩ := parse_compact htree
  have htext : s.resolve (reference scope key) = .ok (String.ofList cs) := by
    rw [resolve_reference hscope hkey hv, stringify_container hcontainer, Value.toJson, hcs]
    rfl
  have hread : (Value.str (String.ofList cs)).parseJson = .ok v := by
    simp only [Value.parseJson, Value.asText?, Value.parseJsonText, String.toList_ofList, hparse]
  refine ⟨⟨_, htext, hread⟩, fun t b w hcopies hw env workers nested => ?_⟩
  subst hw
  exact hcopies.execute htext hread env workers nested

/-- A dictionary with placeholders in its strings. -/
def templateTree : Value :=
  .dict (Entries.named [
    ("$\x7bA.B\x7d", .list [.str "$\x7bA.T\x7d \"\\\n\u00e9", .null, .bool true]),
    ("n", .int (-7)), ("", .dict [])])

theorem isTree_templateTree : IsTree templateTree := by
  have hseven : (-7 : Int).natAbs < tooLongInteger :=
    lt_tooLongInteger (k := 1) (by decide) (by decide)
  refine .dict (by decide) ?_
  simp only [List.mem_cons, List.not_mem_nil, or_false, forall_eq_or_imp, forall_eq]
  have hempty : IsTree (.dict (Entries.named [])) := .dict List.nodup_nil (by simp)
  refine ⟨.list ?_, .int hseven, hempty⟩
  simp only [List.mem_cons, List.not_mem_nil, or_false, forall_eq_or_imp, forall_eq]
  exact ⟨.str _, .null, .bool true⟩

/-- A task that copies a variable of its own scope. -/
def copyingTask : Task :=
  .mk "1" "set" .null (.str "A") .null .stop [(.str "var", .str "Copy"),
    (.str "value", .str (reference "A" "T")), (.str "format", .str "json")] []

theorem copies_copyingTask : copyingTask.Copies (reference "A" "T") ("A", "Copy") :=
  ⟨rfl, rfl, rfl, _, _, rfl, rfl, rfl⟩

/-- A world with the dictionary in it. -/
def treeWorld : World :=
  .start ((empty .throwError).put ("A", "T") templateTree) ⟨[], []⟩

/-- The dictionary comes back from its text, and the task copies it. -/
theorem copies_templateTree :
    (∃ text, treeWorld.store.resolve (reference "A" "T") = .ok text ∧
      (Value.str text).parseJson = .ok templateTree) ∧
    ∃ output, copyingTask.execute ⟨⟨"", []⟩, [], []⟩ .null none treeWorld =
      (.ok (.done output none),
        { treeWorld with store := treeWorld.store.put ("A", "Copy") templateTree }) := by
  have hA : IsReferable "A" := ⟨by decide, by decide, by decide⟩
  have hT : IsReferable "T" := ⟨by decide, by decide, by decide⟩
  have hlookup : treeWorld.store.lookup? ("A", "T") = some templateTree := rfl
  obtain ⟨hback, hcopy⟩ := copies_tree hA hT hlookup isTree_templateTree trivial
  exact ⟨hback, hcopy _ _ treeWorld copies_copyingTask rfl _ _ _⟩

end Store

end Runbook
