import Courtesy.Project.Starter
import Courtesy.Proofs.Paths
import Courtesy.Proofs.PlainLines
import Courtesy.Proofs.Tokens

/-!
# The text of a new configuration

A new project states its name in its configuration as it stands, without quotes. What is read back
depends on the decoder. `Starter.ReadsScalars` names what is assumed of one: that on the line of the
name it implements plain scalars. Nothing else about decoders is used from here on.

* `Starter.isPlainName`: the names that are read back as they stand.
* `Starter.ReadsScalars.name_shorter`: of any other name less is read than stands there.
* `Starter.scan_configText`, `Starter.ofText?_configText`: the tokens and the settings that the
  program's own decoder reads. The settings behind the name are read as if they stood alone, unless
  a colon is in the way.
* `Starter.readsScalars_ofText?`: so this decoder implements plain scalars.
-/

namespace Courtesy

open Courtesy.Yaml

/-! ## Runs -/

namespace Yaml.Layout

variable {l l' : Layout} {fuel k : Nat}

/-- The tokens up to the end of the text, if it is reached within a number of steps. -/
def finish? : Nat → Layout → Option (List Token)
  | 0, l => if l.ended then some l.tokens else none
  | fuel + 1, l =>
    if l.ended then some l.tokens
    else if l.isSettled then
      (step { l with tokens := [] }).bind fun l' => (finish? fuel l').map (l.tokens ++ ·)
    else l.step.bind (finish? fuel)

theorem run_of_finish? {ts : List Token} (h : finish? k l = some ts) (hk : k ≤ fuel) :
    run fuel l = ts := by
  induction k generalizing fuel l ts with
  | zero =>
    simp only [finish?, Option.ite_none_right_eq_some, Option.some.injEq] at h
    obtain ⟨hended, rfl⟩ := h
    cases fuel with
    | zero => rw [run]
    | succ fuel => rw [run, if_pos hended]
  | succ k ih =>
    obtain ⟨fuel, rfl⟩ : ∃ m, fuel = m + 1 := ⟨fuel - 1, by omega⟩
    rw [finish?] at h
    rw [run]
    split at h
    · rw [if_pos ‹_›, Option.some.inj h]
    · rw [if_neg ‹_›]
      split at h
      · obtain ⟨l', hstep, hrest⟩ := Option.bind_eq_some_iff.1 h
        obtain ⟨ts, hfinish, rfl⟩ := Option.map_eq_some_iff.1 hrest
        rw [if_pos ‹_›, hstep]
        exact congrArg (l.tokens ++ ·) (ih hfinish (by omega))
      · obtain ⟨l', hstep, hfinish⟩ := Option.bind_eq_some_iff.1 h
        rw [if_neg ‹_›, hstep]
        exact ih hfinish (by omega)

section

variable (hended : l.ended = false) (hsettled : l.isSettled) (htokens : l.tokens = [])
include hended hsettled htokens

/-- Where nothing is left to hand out, a run is one step and what follows it. -/
theorem run_succ : run (fuel + 1) l = l.step.elim [] (run fuel) := by
  obtain ⟨cursor, tokens, indent, outer, keyAllowed, keys, ended⟩ := l
  cases hended
  cases htokens
  rw [run, if_neg Bool.false_ne_true, if_pos hsettled]
  rfl

theorem run_handOut (tokens : List Token) :
    run (fuel + 1) { l with tokens := tokens } = tokens ++ run (fuel + 1) l := by
  rw [run_succ hended hsettled htokens]
  obtain ⟨cursor, tokens, indent, outer, keyAllowed, keys, ended⟩ := l
  cases hended
  cases htokens
  rw [run, if_neg Bool.false_ne_true]
  exact if_pos hsettled

end

/-! ## The line with the name -/

/-- The layout behind a first key and its colon, with the value ahead. -/
def atValue (rest : List Char) : Layout where
  cursor := ⟨' ' :: rest, ⟨0, 5⟩⟩
  indent := 0
  outer := [-1]
  keyAllowed := false

theorem skipGap_atValue {c : Char} (hgap : isGap c = false) (hhash : c ≠ '#') (rest : List Char) :
    skipGap (fuel + 1) (atValue (c :: rest)) =
      (atValue (c :: rest)).moveTo ⟨c :: rest, ⟨0, 6⟩⟩ := by
  simp only [isGap, isBlank, Bool.or_eq_false_iff] at hgap
  have hspace : List.takeWhile (fun x => x == ' ' || x == '\t') (' ' :: c :: rest) = [' '] := by
    simp [hgap]
  simp [skipGap, atValue, Cursor.column, Cursor.skipWhile, inFlow, hgap, hspace, Cursor.advance,
    Cursor.starts, Cursor.next, hhash, moveTo]

/-- The layout behind a first word that may be a key. -/
def atColon (rest : List Char) : Layout where
  cursor := ⟨':' :: ' ' :: rest, ⟨0, 4⟩⟩
  tokens := [.scalar "name" true]
  keyAllowed := false
  keys := [some ⟨false, 0, {}⟩]

theorem step_name (rest : List Char) :
    step { cursor := ⟨'n' :: 'a' :: 'm' :: 'e' :: ':' :: ' ' :: rest, {}⟩ } =
      some (atColon rest) := by
  generalize hl : ({ cursor := ⟨'n' :: 'a' :: 'm' :: 'e' :: ':' :: ' ' :: rest, {}⟩ } : Layout) = l
  have hgap (fuel : Nat) : skipGap (fuel + 1) l = l := by
    subst hl
    rfl
  have hmarker (x : Char) : l.cursor.atMarker x = false := by
    simp only [← hl, Cursor.atMarker, Bool.and_eq_false_iff, beq_eq_false_iff_ne]
    refine .inl (.inr fun h => ?_)
    simp only [List.take_succ_cons, List.cons.injEq] at h
    exact absurd (h.1.trans h.2.1.symm) (by decide)
  have hread : l.plainScalar = some (atColon rest) := by
    subst hl
    rfl
  have hblocks : l.endBlocks l.cursor.column = l := by
    subst hl
    rfl
  have hpeek : l.cursor.rest = 'n' :: 'a' :: 'm' :: 'e' :: ':' :: ' ' :: rest := by
    subst hl
    rfl
  rw [step_of_begins (hgap _) (by subst hl; rfl) hpeek rfl hmarker, hblocks, hread]

/-- The tokens of a block with a first key. -/
def keyTokens : List Token := [.blockMapping, .key, .scalar "name" true, .value]

theorem step_colon (rest : List Char) :
    step (atColon rest) = some { atValue rest with tokens := keyTokens } := by
  have hgap (fuel : Nat) : skipGap (fuel + 1) (atColon rest) = atColon rest := rfl
  have hvalue : (atColon rest).value = some { atValue rest with tokens := keyTokens } := rfl
  have hpeek : (atColon rest).cursor.peek? = some ':' := rfl
  have hmarker (x : Char) : (atColon rest).cursor.atMarker x = false := rfl
  have hnext : (atColon rest).cursor.nextOrEnd isGap 1 = true := rfl
  have hblocks : (atColon rest).endBlocks (atColon rest).cursor.column = atColon rest := rfl
  rw [step, hgap]
  simp only [hpeek, hmarker, hnext, hblocks]
  simp [hvalue]

/-- The word turns out to be a key before it is handed out. -/
theorem run_atColon (rest : List Char) :
    run (fuel + 1) (atColon rest) = run fuel { atValue rest with tokens := keyTokens } := by
  rw [run, step_colon]
  rfl

/-- The layout behind the name. -/
def behindName (c : Cursor) (broken : Bool) : Layout where
  cursor := c
  indent := 0
  outer := [-1]
  keyAllowed := broken

theorem step_atValue {cs : List Char} (hopens : Plain.opens cs) {x : Char} {rest t : List Char}
    {c : Cursor} {broken : Bool}
    (hread : Plain.read false 1 ⟨cs ++ '\n' :: x :: rest, ⟨0, 6⟩⟩ = some ⟨t, c, broken⟩) :
    step (atValue (cs ++ '\n' :: x :: rest)) =
      some { behindName c broken with tokens := [.scalar (String.ofList t) true] } := by
  obtain ⟨d, ds, rfl, hbegins⟩ : ∃ d ds, cs = d :: ds ∧ Plain.begins d ds := by
    cases cs with
    | nil => cases hopens
    | cons d ds => exact ⟨d, ds, rfl, (Bool.and_eq_true_iff.1 hopens).1⟩
  generalize hl : (atValue (d :: (ds ++ '\n' :: x :: rest))).moveTo
    ⟨d :: (ds ++ '\n' :: x :: rest), ⟨0, 6⟩⟩ = l
  have hgap (fuel : Nat) : skipGap (fuel + 1) (atValue (d :: (ds ++ '\n' :: x :: rest))) = l := by
    rw [skipGap_atValue (Plain.isGap_of_begins hbegins) (Plain.ne_hash_of_begins hbegins), hl]
  have hbegins' : Plain.begins d (ds ++ '\n' :: x :: rest) := by
    cases ds with
    | nil =>
      obtain h | ⟨-, e, es, h, -⟩ := Plain.begins_cases hbegins
      · simp [Plain.begins, h]
      · cases h
    | cons e es => exact hbegins
  rw [List.cons_append] at hread ⊢
  rw [step_of_begins (hgap _) (hl ▸ rfl) (hl ▸ rfl) hbegins' (hl ▸ fun _ => rfl), ← hl]
  show (Plain.read false 1 ⟨d :: (ds ++ '\n' :: x :: rest), ⟨0, 6⟩⟩).bind _ = _
  rw [hread]
  rfl

/-- A comment is skipped up to the end of its line. -/
theorem step_comment {more : List Char} (hmore : ∀ c ∈ more, isBreak c = false) (rest : List Char)
    (m : Mark) :
    step (behindName ⟨'#' :: more ++ '\n' :: 's' :: rest, m⟩ false) =
      step (behindName ⟨'s' :: rest, ⟨m.line + 1, 0⟩⟩ true) := by
  have hstay (fuel n : Nat) : skipGap fuel (behindName ⟨'s' :: rest, ⟨n, 0⟩⟩ true) =
      behindName ⟨'s' :: rest, ⟨n, 0⟩⟩ true := by
    cases fuel <;> rfl
  have hline : (more ++ '\n' :: 's' :: rest).takeWhile (!isBreak ·) = more := by
    rw [List.takeWhile_append_of_pos (by simpa using hmore)]
    simp [isBreak]
  have hskip (fuel : Nat) :
      skipGap (fuel + 1) (behindName ⟨'#' :: more ++ '\n' :: 's' :: rest, m⟩ false) =
        behindName ⟨'s' :: rest, ⟨m.line + 1, 0⟩⟩ true := by
    rw [← hstay fuel]
    have hhash : isBreak '#' = false := rfl
    have hbreak : isBreak '\n' = true := rfl
    simp [skipGap, behindName, Cursor.column, Cursor.next, Cursor.skipWhile, inFlow, hline, hhash,
      hbreak, Cursor.starts, Cursor.advance, Cursor.newline, moveTo, allow]
  rw [step, step, hskip, hstay]

/-- A colon behind the value is refused. -/
theorem step_secondColon {more : List Char} (hmore : more.head?.all isGap) {m : Mark}
    (hcolumn : m.column ≠ 0) : step (behindName ⟨':' :: more, m⟩ false) = none := by
  generalize hl : behindName ⟨':' :: more, m⟩ false = l
  have hcursor : l.cursor = ⟨':' :: more, m⟩ := by rw [← hl]; rfl
  have hskip (fuel : Nat) : skipGap (fuel + 1) l = l := by
    simp [← hl, skipGap, behindName, Cursor.column, Cursor.skipWhile, inFlow, Cursor.advance,
      Cursor.starts, Cursor.next, moveTo, isBreak]
  have hblocks : l.endBlocks l.cursor.column = l := by
    simp [← hl, endBlocks, inFlow, behindName, unroll]
  have hvalue : l.value = none := by rw [← hl]; rfl
  have hmarker (x : Char) : l.cursor.atMarker x = false := by
    simp [hcursor, Cursor.atMarker, Cursor.column, hcolumn]
  have hpeek : l.cursor.peek? = some ':' := by rw [hcursor]; rfl
  have hnext : l.cursor.nextOrEnd isGap 1 = true := by
    rw [hcursor]
    cases more with
    | nil => rfl
    | cons c cs => exact hmore
  rw [step, hskip]
  simp only [hpeek, hmarker, hnext, hblocks]
  simp [hvalue]

end Yaml.Layout

theorem Yaml.Scalar.resolve_text {s t : String} (h : resolve s = .text t) : t = s := by
  unfold resolve at h
  cases hlookup : words.lookup s with
  | some v =>
    rw [hlookup] at h
    subst h
    have hmem := mem_of_lookup hlookup
    simp [words] at hmem
  | none =>
    rw [hlookup] at h
    grind

theorem Yaml.Scalar.resolve_null {s : String} (h : resolve s = .null) :
    s = "" ∨ s ∈ ["~", "null", "Null", "NULL"] := by
  unfold resolve at h
  cases hlookup : words.lookup s with
  | some v =>
    rw [hlookup] at h
    subst h
    have hmem := mem_of_lookup hlookup
    simpa [words] using hmem
  | none =>
    rw [hlookup] at h
    grind

/-! ## The text of a configuration -/

namespace Starter

open Courtesy.Text

/-- The lines of a configuration behind the name. -/
def settingsText : String :=
  unlines [
    "source_dirs:",
    "  - src",
    "output_dir: generated",
    "target:",
    "  namespace: PoliteCodeGenerated",
    "  class: Program",
    "log:",
    "  level: info",
    "  development: false",
    "server:",
    "  port: 8080",
    "  rate_limit: 5",
    "  burst: 10"]

theorem toList_configText (name : String) :
    (configText name).toList =
      'n' :: 'a' :: 'm' :: 'e' :: ':' :: ' ' :: (name.toList ++ '\n' :: settingsText.toList) := by
  rw [configText, toList_unlines_cons, String.toList_append, String.toList_ofList, settingsText]
  simp only [List.cons_append, List.nil_append]

/-- The tokens of the settings. -/
def settingsTokens : List Yaml.Token :=
  let field (k : String) : List Yaml.Token := [.key, .scalar k true, .value]
  let value (v : String) : List Yaml.Token := [.scalar v true]
  field "source_dirs" ++ [.blockSequence, .blockEntry] ++ value "src" ++ [.blockEnd]
    ++ field "output_dir" ++ value "generated"
    ++ field "target" ++ [.blockMapping]
    ++ field "namespace" ++ value "PoliteCodeGenerated" ++ field "class" ++ value "Program"
    ++ [.blockEnd]
    ++ field "log" ++ [.blockMapping]
    ++ field "level" ++ value "info" ++ field "development" ++ value "false" ++ [.blockEnd]
    ++ field "server" ++ [.blockMapping]
    ++ field "port" ++ value "8080" ++ field "rate_limit" ++ value "5"
    ++ field "burst" ++ value "10"
    ++ [.blockEnd, .blockEnd, .streamEnd]

theorem settings_readable :
    settingsText.toList.all isAllowed ∧ settingsText.toList.head? = some 's' ∧
      60 ≤ settingsText.toList.length ∧
      Layout.finish? 60 (.behindName ⟨settingsText.toList, ⟨1, 0⟩⟩ true) = some settingsTokens := by
  simp only [settingsText, toList_unlines_cons]
  repeat rw [String.toList_ofList]
  decide +kernel

/-- The tokens of the line with the name, up to its end. -/
def nameTokens (t : List Char) : List Yaml.Token :=
  Layout.keyTokens ++ [.scalar (String.ofList t) true]

theorem all_configText (name : String) :
    (configText name).toList.all isAllowed = name.toList.all isAllowed := by
  have hfront : ['n', 'a', 'm', 'e', ':', ' '].all isAllowed := rfl
  have hall (cs : List Char) (hcs : cs.all isAllowed) :
      (['n', 'a', 'm', 'e', ':', ' '] ++ (name.toList ++ ['\n'] ++ cs)).all isAllowed =
        name.toList.all isAllowed := by
    rw [List.all_append, List.all_append, List.all_append, hfront, hcs, Bool.true_and,
      Bool.and_true]
    exact Bool.and_true _
  rw [toList_configText, ← hall _ settings_readable.1, List.append_assoc]
  rfl

/-- The text has no byte order mark. -/
theorem scan_eq (name : String) :
    Yaml.Token.scan (configText name) =
      if name.toList.all isAllowed then
        Layout.run (2 * (configText name).toList.length + 4)
          { cursor := ⟨(configText name).toList, {}⟩ }
      else [] := by
  have hmark : ('n'.toNat == 0xfeff) = false := rfl
  rw [← all_configText]
  unfold Yaml.Token.scan
  rw [toList_configText]
  simp only [hmark, Bool.false_eq_true, if_false]

theorem scan_behindName {name : String} (hopens : Plain.opens name.toList)
    (hallowed : name.toList.all isAllowed) {rest t : List Char} {c : Cursor} {broken : Bool}
    (hrest : settingsText.toList = 's' :: rest)
    (hread : Plain.read false 1 ⟨name.toList ++ '\n' :: 's' :: rest, ⟨0, 6⟩⟩ =
      some ⟨t, c, broken⟩) :
    ∃ fuel, 60 < fuel ∧ Yaml.Token.scan (configText name) =
      nameTokens t ++ Layout.run (fuel + 1) (.behindName c broken) := by
  have hlong (cs : List Char) (h : 60 ≤ cs.length) :
      60 ≤ ('n' :: 'a' :: 'm' :: 'e' :: ':' :: ' ' :: (name.toList ++ '\n' :: cs)).length := by
    simp only [List.length_cons, List.length_append]
    omega
  have hrun (n : Nat) (hn : 60 ≤ n) : ∃ fuel, 60 < fuel ∧
      Layout.run (2 * n + 4) { cursor := ⟨(configText name).toList, {}⟩ } =
        nameTokens t ++ Layout.run (fuel + 1) (.behindName c broken) := by
    refine ⟨2 * n, by omega, ?_⟩
    rw [toList_configText, Layout.run_succ rfl rfl rfl, Layout.step_name,
      Option.elim_some, Layout.run_atColon, Layout.run_handOut rfl rfl rfl,
      Layout.run_succ rfl rfl rfl, hrest,
      Layout.step_atValue hopens hread, Option.elim_some, Layout.run_handOut rfl rfl rfl,
      nameTokens, List.append_assoc]
  rw [scan_eq, if_pos hallowed]
  exact hrun _ (toList_configText name ▸ hlong _ settings_readable.2.2.1)

/-- What is read of the line with the name: the scalar on it, and then either the settings or, if a
colon is in the way, nothing. -/
theorem scan_configText {name : String} (hopens : Plain.opens name.toList)
    (hallowed : name.toList.all isAllowed) :
    ∃ t, (Plain.valueFrom [] name.toList = some t ∧
        Yaml.Token.scan (configText name) = nameTokens t ++ settingsTokens) ∨
      Plain.valueFrom [] name.toList = none ∧ Yaml.Token.scan (configText name) = nameTokens t := by
  obtain ⟨-, hhead, -, hfinish⟩ := settings_readable
  obtain ⟨rest, hrest⟩ := List.head?_eq_some_iff.1 hhead
  obtain ⟨t, c, broken, hread, hend⟩ := Plain.read_line hopens Nat.one_pos
    (rfl : Yaml.isGap 's' = false) rest (m := ⟨0, 6⟩) (by decide)
  obtain ⟨fuel, hfuel, hscan⟩ := scan_behindName hopens hallowed hrest hread
  refine ⟨t, ?_⟩
  rw [hscan]
  -- the settings start on a line of their own, wherever the name ends
  have hsettings : Layout.run (fuel + 1) (.behindName ⟨'s' :: rest, ⟨1, 0⟩⟩ true) =
      settingsTokens :=
    Layout.run_of_finish? (hrest ▸ hfinish) (by omega)
  generalize Plain.valueFrom [] name.toList = value at hend
  cases hend with
  | line => exact .inl ⟨rfl, by rw [hsettings]⟩
  | comment more column hmore =>
    refine .inl ⟨rfl, ?_⟩
    rw [Layout.run_succ rfl rfl rfl] at hsettings ⊢
    rw [Layout.step_comment hmore, hsettings]
  | colon more m hmore hcolumn =>
    refine .inr ⟨rfl, ?_⟩
    have hnext : (more ++ '\n' :: 's' :: rest).head?.all Yaml.isGap := by
      cases more with
      | nil => rfl
      | cons d ds => exact isGap_of_isBlank hmore
    rw [Layout.run_succ rfl rfl rfl, List.cons_append, Layout.step_secondColon hnext hcolumn,
      Option.elim_none, List.append_nil]

/-- The tree of a configuration. -/
def configNode (name : String) : Node :=
  let plain (s : String) : Node := .scalar "" s true
  .mapping [
    (plain "name", plain name),
    (plain "source_dirs", .sequence [plain "src"]),
    (plain "output_dir", plain "generated"),
    (plain "target", .mapping [
      (plain "namespace", plain "PoliteCodeGenerated"),
      (plain "class", plain "Program")]),
    (plain "log", .mapping [(plain "level", plain "info"), (plain "development", plain "false")]),
    (plain "server", .mapping [
      (plain "port", plain "8080"),
      (plain "rate_limit", plain "5"),
      (plain "burst", plain "10")])]

set_option maxRecDepth 100000 in
theorem document_config (t : List Char) :
    ((Reader.document (3 * (nameTokens t ++ settingsTokens).length + 4)).run
      { tokens := nameTokens t ++ settingsTokens }).map (·.1) =
      some (some (configNode (String.ofList t))) := by
  rfl

theorem document_name (t : List Char) :
    ((Reader.document (3 * (nameTokens t).length + 4)).run { tokens := nameTokens t }).map (·.1) =
      none := by
  rfl

/-- The configuration that a new project states. -/
def config (name : String) : Config :=
  { Config.default name with target := ⟨some "PoliteCodeGenerated", "Program"⟩ }

/-- The name that a plain scalar stands for. -/
def nameOf (s : String) : String := if Scalar.resolve s = .null then "" else s

theorem text?_plain (s : String) : (Node.scalar "" s true).text? = some (nameOf s) := by
  have hscalar : (Node.scalar "" s true).scalar? = some (Scalar.resolve s) := rfl
  rw [Node.text?, hscalar, nameOf]
  cases h : Scalar.resolve s with
  | null => rfl
  | text t =>
    rw [if_neg (by simp)]
    exact congrArg some (Scalar.resolve_text h)
  | _ => rfl

set_option maxRecDepth 100000 in
theorem record?_configNode (s : String) :
    (configNode s).record? Config.fields {} {} = some (config (nameOf s)) := by
  have hfirst (fuel : Nat) (n : Node) (rest : List (Node × Node)) :
      Node.setFields Config.fields (fuel + 1) [] ((.scalar "" "name" true, n) :: rest) {} =
        n.text?.bind fun s => Node.setFields Config.fields fuel ["name"] rest { name := s } := by
    rw [Node.setFields]
    show Option.bind (n.text?.map _) _ = _
    cases n.text? <;> rfl
  show Node.setFields Config.fields (_ + 1) [] _ _ = _
  rw [hfirst, text?_plain]
  rfl

/-- The settings of the text, with the scalar that the line of the name holds. -/
theorem ofText?_configText {name : String} (hopens : Plain.opens name.toList)
    (hallowed : name.toList.all isAllowed) :
    Config.ofText? (configText name) =
      (Plain.valueFrom [] name.toList).map fun t => config (nameOf (String.ofList t)) := by
  obtain ⟨t, ⟨hvalue, hscan⟩ | ⟨hvalue, hscan⟩⟩ := scan_configText hopens hallowed
  · unfold Config.ofText?
    rw [Node.read?, hscan, document_config, hvalue]
    exact record?_configNode _
  · unfold Config.ofText?
    rw [Node.read?, hscan, document_name, hvalue]
    rfl

theorem ofText?_disallowed {name : String} (h : name.toList.all isAllowed = false) :
    Config.ofText? (configText name) = none := by
  have hscan : Yaml.Token.scan (configText name) = [] := by
    rw [scan_eq, h]
    rfl
  unfold Config.ofText?
  rw [Node.read?, hscan]
  rfl

/-! ## Decoders -/

/-- The words that stand for no value at all. -/
def nullWords : List String := ["~", "null", "Null", "NULL"]

theorem nameOf_null {s : String} (h : s ∈ nullWords) : nameOf s = "" := by
  have hall : ∀ s ∈ nullWords, nameOf s = "" := by decide
  exact hall s h

theorem nameOf_eq {s : String} (h : s ∉ nullWords) : nameOf s = s := by
  rw [nameOf]
  split
  · rename_i hnull
    exact ((Scalar.resolve_null hnull).resolve_right h).symm
  · rfl

/-- Whether a name that is written without quotes is read back as it stands: a plain scalar takes
all of its line, all characters are allowed, and it is no word for nothing. -/
def isPlainName (name : String) : Bool :=
  Plain.isLine name.toList && name.toList.all isAllowed && !nullWords.contains name

/-- What is assumed of a decoder: it reads the settings of a new project as they stand, and on the
line of the name it implements plain scalars. -/
structure ReadsScalars (decode : String → Option Config) : Prop where
  /-- A plain scalar that takes all of the line stands for itself. -/
  plain {name : String} : isPlainName name → decode (configText name) = some (config name)
  /-- The words for nothing are empty. -/
  null {name : String} : name ∈ nullWords → decode (configText name) = some (config "")
  /-- A blank at the end does not belong to the scalar. -/
  blank {cs : List Char} {b : Char} : Plain.opens cs → Yaml.isBlank b →
    decode (configText (String.ofList (cs ++ [b]))) = decode (configText (String.ofList cs))
  /-- A scalar ends at a comment. -/
  comment {cs more : List Char} {b : Char} : Plain.opens cs → Yaml.isBlank b →
    (∀ c ∈ more, isAllowed c ∧ isBreak c = false) →
    decode (configText (String.ofList (cs ++ b :: '#' :: more))) =
      decode (configText (String.ofList cs))
  /-- A scalar ends at a colon, and there can be no second key on the line. -/
  colon {name : String} : Plain.opens name.toList → Plain.hasComment name.toList = false →
    Plain.hasKey name.toList → decode (configText name) = none
  /-- Other characters are refused. -/
  disallowed {name : String} : Plain.opens name.toList → name.toList.all isAllowed = false →
    decode (configText name) = none

/-- What stands behind a blank and is no part of the scalar makes no difference. -/
theorem ofText?_append {cs more : List Char} {b : Char} (hopens : Plain.opens cs)
    (hb : Yaml.isBlank b) (hmore : ∀ c ∈ more, isAllowed c ∧ isBreak c = false)
    (hvalue : ∀ blanks, Plain.valueFrom blanks (b :: more) = some []) :
    Config.ofText? (configText (String.ofList (cs ++ b :: more))) =
      Config.ofText? (configText (String.ofList cs)) := by
  have hbs : ∀ c ∈ b :: more, isAllowed c ∧ isBreak c = false := by
    have hb' : isAllowed b ∧ isBreak b = false := by
      obtain rfl | rfl : b = ' ' ∨ b = '\t' := by simpa [Yaml.isBlank] using hb
      all_goals decide
    exact List.forall_mem_cons.2 ⟨hb', hmore⟩
  have hopens' : Plain.opens (cs ++ b :: more) := by
    rw [Plain.opens_append_blank hb, hopens, Bool.true_and, List.all_eq_true]
    exact fun c hc => by simp [hbs c hc]
  have hallowed' : (cs ++ b :: more).all isAllowed = cs.all isAllowed := by
    rw [List.all_append, List.all_eq_true.2 fun c hc => (hbs c hc).1, Bool.and_true]
  by_cases hallowed : cs.all isAllowed
  · rw [ofText?_configText (by rwa [String.toList_ofList])
      (by rwa [String.toList_ofList, hallowed']),
      ofText?_configText (by rwa [String.toList_ofList]) (by rwa [String.toList_ofList]),
      String.toList_ofList, String.toList_ofList, Plain.valueFrom_append hvalue hb]
  · have hnot := Bool.eq_false_iff.2 hallowed
    rw [ofText?_disallowed (by rwa [String.toList_ofList, hallowed']),
      ofText?_disallowed (by rwa [String.toList_ofList])]

/-- The decoder that the program runs with. -/
theorem readsScalars_ofText? : ReadsScalars Config.ofText? where
  plain {name} h := by
    simp only [isPlainName, Plain.isLine, Bool.and_eq_true, Bool.not_eq_true', List.contains_eq_mem,
      decide_eq_false_iff_not] at h
    obtain ⟨⟨⟨⟨⟨hopens, hcomment⟩, hkey⟩, hlast⟩, hallowed⟩, hnull⟩ := h
    have hne : name.toList ≠ [] := fun h => by simp [h, Plain.opens] at hopens
    rw [ofText?_configText hopens hallowed,
      Plain.valueFrom_of_isLine hcomment (fun _ => rfl) hkey hne hlast, Option.map_some,
      List.nil_append, String.ofList_toList, nameOf_eq hnull]
  null {name} h := by
    have hall : ∀ name ∈ nullWords, Plain.opens name.toList ∧ name.toList.all isAllowed ∧
        Plain.valueFrom [] name.toList = some name.toList := by
      decide
    obtain ⟨hopens, hallowed, hvalue⟩ := hall name h
    rw [ofText?_configText hopens hallowed, hvalue, Option.map_some, String.ofList_toList,
      nameOf_null h]
  blank {cs b} hopens hb := ofText?_append hopens hb (by simp) fun blanks => by
    simp [Plain.valueFrom, hb]
  comment {cs more b} hopens hb hmore :=
    ofText?_append hopens hb (List.forall_mem_cons.2 ⟨by decide, hmore⟩) fun blanks => by
      have hhash : Yaml.isBlank '#' = false := rfl
      simp [Plain.valueFrom, hb, hhash]
  colon {name} hopens hcomment hkey := by
    by_cases hallowed : name.toList.all isAllowed
    · rw [ofText?_configText hopens hallowed,
        Plain.valueFrom_of_hasKey hcomment (fun _ => rfl) hkey]
      rfl
    · exact ofText?_disallowed (Bool.eq_false_iff.2 hallowed)
  disallowed _ h := ofText?_disallowed h

namespace ReadsScalars

variable {decode : String → Option Config} {c : Config} {cs : List Char}

/-- What is read of a line that a scalar starts on is the line as it stands, or less. -/
theorem name_shorter (h : ReadsScalars decode) (hopens : Plain.opens cs)
    (hread : decode (configText (String.ofList cs)) = some c) :
    isPlainName (String.ofList cs) ∨ c.name.toList.length < cs.length := by
  induction hn : cs.length using Nat.strongRecOn generalizing cs with
  | ind n ih =>
    -- where the line can be cut without a difference, less is read than stands there
    have hcut {front : List Char} {b : Char} {more : List Char} (hcs : cs = front ++ b :: more)
        (hb : Yaml.isBlank b)
        (hsame : Plain.opens front → decode (configText (String.ofList cs)) =
          decode (configText (String.ofList front))) :
        isPlainName (String.ofList cs) ∨ c.name.toList.length < n := by
      rw [hcs, Plain.opens_append_blank hb, Bool.and_eq_true] at hopens
      rw [hsame hopens.1] at hread
      have hlt : front.length < n := by
        rw [← hn, hcs, List.length_append, List.length_cons]
        omega
      rcases ih _ hlt hopens.1 hread rfl with hplain | hshorter
      · rw [h.plain hplain] at hread
        cases hread
        exact .inr (by rwa [config, Config.default, Config.withDefaults, String.toList_ofList])
      · exact .inr (by omega)
    by_cases hallowed : cs.all isAllowed = true
    · cases hcomment : Plain.hasComment cs with
      | true =>
        obtain ⟨front, b, more, hcs, hb⟩ := Plain.exists_of_hasComment hcomment
        refine hcut hcs hb fun hfront => ?_
        rw [hcs]
        refine h.comment hfront hb fun c hc => ?_
        have hmem : c ∈ cs := by simp [hcs, hc]
        exact ⟨List.all_eq_true.1 hallowed c hmem, Plain.isBreak_of_opens hopens hmem⟩
      | false =>
        cases hkey : Plain.hasKey cs with
        | true =>
          rw [h.colon (by rwa [String.toList_ofList]) (by rwa [String.toList_ofList])
            (by rwa [String.toList_ofList])] at hread
          cases hread
        | false =>
          cases hlast : cs.getLast?.any Yaml.isBlank with
          | true =>
            obtain ⟨b, hb, hblank⟩ := (Option.any_eq_true _ _).1 hlast
            obtain ⟨front, hcs⟩ := List.getLast?_eq_some_iff.1 hb
            exact hcut hcs hblank fun hfront => hcs ▸ h.blank hfront hblank
          | false =>
            by_cases hnull : String.ofList cs ∈ nullWords
            · rw [h.null hnull] at hread
              cases hread
              have hpos : cs ≠ [] := fun h => by simp [h, Plain.opens] at hopens
              exact .inr (hn ▸ List.length_pos_iff.2 hpos)
            · left
              simp [isPlainName, Plain.isLine, hopens, hcomment, hkey, hlast, hallowed, hnull]
    · rw [h.disallowed (by rwa [String.toList_ofList])
        (by rw [String.toList_ofList]; exact Bool.eq_false_iff.2 hallowed)] at hread
      cases hread

theorem isPlainName_of_name {name : String} (h : ReadsScalars decode)
    (hopens : Plain.opens name.toList) (hread : decode (configText name) = some c)
    (hname : c.name = name) : isPlainName name := by
  rw [← @String.ofList_toList name] at hread
  rcases h.name_shorter hopens hread with hplain | hshorter
  · rwa [String.ofList_toList] at hplain
  · rw [hname] at hshorter
    omega

end ReadsScalars

end Starter

end Courtesy
