import Courtesy.Proofs.Layout
import Courtesy.Proofs.Verdict

/-!
# Pairs of braces in the code of a run

A closing brace is emitted for every block that is closed, an opening brace only for a header that
is accepted. A refused header still opens its block, so that the lines behind it are read at their
depth, and the closing brace of that block then stands alone in the code. `braces_of_success` counts
this out for runs that succeed: the code has one closing brace too many for each refused header, and
its braces match exactly when no header is refused.
-/

namespace Courtesy

open Text Statement

/-! ## Brace lines -/

namespace Layout

/-- Whether the brace lines among lines match, with a number of braces open in front of them. -/
def isMatched : Nat → List String → Bool
  | depth, [] => depth == 0
  | depth, line :: rest =>
    if content line = "\x7b" then isMatched (depth + 1) rest
    else if content line = "\x7d" then depth != 0 && isMatched (depth - 1) rest
    else isMatched depth rest

/-- The number of lines that are the given brace. -/
def count (brace : String) (lines : List String) : Nat := lines.countP (content · = brace)

example : isMatched 0 ["if (a)", "\x7b", "    b = 1;", "\x7d"] = true := by decide +kernel

example : isMatched 0 ["\x7d", "\x7b"] = false := by decide +kernel

/-- A line that is no brace. -/
def IsText (line : String) : Prop := content line ≠ "\x7b" ∧ content line ≠ "\x7d"

theorem isText_indent {code : String} (h : StartsWord code) (level : Nat) :
    IsText (Target.indent level ++ code) := by
  rw [IsText, h.content_indent]
  exact ⟨h.ne_mark (by decide : isWordStart '{' = false),
    h.ne_mark (by decide : isWordStart '}' = false)⟩

@[simp] theorem count_nil (brace : String) : count brace [] = 0 := rfl

@[simp] theorem count_append (brace : String) (xs ys : List String) :
    count brace (xs ++ ys) = count brace xs + count brace ys :=
  List.countP_append

theorem count_cons (brace line : String) (lines : List String) :
    count brace (line :: lines) = (if content line = brace then 1 else 0) + count brace lines := by
  rw [count, List.countP_cons, Nat.add_comm]
  simp only [decide_eq_true_eq, count]

theorem count_text {lines : List String} (h : ∀ line ∈ lines, IsText line) :
    count "\x7b" lines = 0 ∧ count "\x7d" lines = 0 := by
  unfold count
  rw [List.countP_eq_zero, List.countP_eq_zero]
  exact ⟨fun line hline => by simpa using (h line hline).1,
    fun line hline => by simpa using (h line hline).2⟩

theorem count_of_isMatched {depth : Nat} {lines : List String} (h : isMatched depth lines = true) :
    count "\x7d" lines = count "\x7b" lines + depth := by
  induction lines generalizing depth with
  | nil =>
    have hdepth : depth = 0 := by simpa [isMatched] using h
    simp [hdepth]
  | cons line rest ih =>
    rw [isMatched] at h
    rw [count_cons, count_cons]
    by_cases hopen : content line = "\x7b"
    · rw [if_pos hopen] at h
      rw [ih h, hopen, if_neg (by decide), if_pos rfl]
      omega
    · rw [if_neg hopen] at h ⊢
      by_cases hclose : content line = "\x7d"
      · rw [if_pos hclose, Bool.and_eq_true, bne_iff_ne] at h
        rw [ih h.2, if_pos hclose]
        omega
      · rw [if_neg hclose] at h ⊢
        rw [ih h]
        omega

theorem isMatched_text {lines : List String} (h : ∀ line ∈ lines, IsText line) (depth : Nat)
    (rest : List String) : isMatched depth (lines ++ rest) = isMatched depth rest := by
  induction lines with
  | nil => rfl
  | cons line lines ih =>
    obtain ⟨⟨hopen, hclose⟩, hlines⟩ := List.forall_mem_cons.1 h
    rw [List.cons_append, isMatched, if_neg hopen, if_neg hclose, ih hlines]

theorem isMatched_opening {brace : String} (h : content brace = "\x7b") (depth : Nat)
    (rest : List String) : isMatched depth (brace :: rest) = isMatched (depth + 1) rest := by
  rw [isMatched, if_pos h]

theorem isMatched_closing {brace : String} (h : content brace = "\x7d") (depth : Nat)
    (rest : List String) : isMatched (depth + 1) (brace :: rest) = isMatched depth rest := by
  rw [isMatched, h, if_neg (by decide), if_pos rfl]
  rfl

end Layout

/-! ## The braces of a line -/

namespace Step

open Layout

/-- The brace lines that a line emits, and the blocks that go with them. -/
inductive Emits (st : State) (text : String) : List String → Prop
  | closes {b : Nat} {outer : List Nat} {brace : String} (hb : st.blocks = b :: outer)
      (hblocks : (ofLine st text).state.blocks = outer) (hno : "\x7b" ∉ tokenize text)
      (hbrace : content brace = "\x7d") : Emits st text [brace]
  | opens {head brace : String}
      (hblocks : (ofLine st text).state.blocks = st.lineNumber :: st.blocks)
      (hacc : Accepts st text) (hhead : IsText head) (hbrace : content brace = "\x7b") :
      Emits st text [head, brace]
  | refuses (hblocks : (ofLine st text).state.blocks = st.lineNumber :: st.blocks)
      (hopens : "\x7b" ∈ tokenize text) (hno : ¬ Accepts st text) : Emits st text []
  | keeps {lines : List String} (hblocks : (ofLine st text).state.blocks = st.blocks)
      (hno : "\x7b" ∉ tokenize text) (h : ∀ line ∈ lines, IsText line) : Emits st text lines

/-- A refused statement yields no code. -/
theorem emitted_of_not_accepts {st : State} {text : String} (hne : text ≠ "\x7d")
    (hno : ¬ Accepts st text) : (ofLine st text).emitted = [] := by
  rw [accepts_iff hne] at hno
  rw [ofLine_statement hne]
  have hr := perform_reading (marked st text) text
  generalize perform (marked st text) text = r at hno hr ⊢
  cases hr with
  | accepted _ _ _ => exact absurd rfl hno
  | _ => rfl

theorem emits_ofLine (st : State) {text : String} (htrim : trim text = text) :
    Emits st text (ofLine st text).emitted := by
  have hstack := stack_ofLine st text
  unfold Nesting.stackBehind at hstack
  by_cases hne : text = "\x7d"
  · subst hne
    have hno : "\x7b" ∉ tokenize "\x7d" := by decide +kernel
    rw [if_pos rfl] at hstack
    cases hb : st.blocks with
    | nil =>
      rw [hb] at hstack
      refine .keeps (hstack.trans hb.symm) hno fun line hline => ?_
      rw [emitted_closing, if_pos hb] at hline
      cases hline
    | cons b outer =>
      have hbrace : "\x7d".toList = ['}'] := rfl
      rw [emitted_closing, if_neg (by simp [hb])]
      rw [hb] at hstack
      exact .closes hb hstack hno (content_indent hbrace (by decide) _)
  · rw [if_neg hne] at hstack
    by_cases hopens : "\x7b" ∈ tokenize text
    · rw [if_pos hopens] at hstack
      by_cases hacc : Accepts st text
      · obtain ⟨code, hcode, hshape⟩ := shape_ofLine hne htrim hacc
        rw [opens_eq, if_pos (decide_eq_true hopens)] at hshape
        obtain ⟨head, rfl, hhead⟩ := hshape
        have hbrace : "\x7b".toList = ['{'] := rfl
        rw [hcode]
        exact .opens hstack hacc (isText_indent (startsWord_of_isHead hhead) _)
          (content_indent hbrace (by decide) _)
      · rw [emitted_of_not_accepts hne hacc]
        exact .refuses hstack hopens hacc
    · rw [if_neg hopens] at hstack
      refine .keeps hstack hopens ?_
      by_cases hacc : Accepts st text
      · obtain ⟨code, hcode, hshape⟩ := shape_ofLine hne htrim hacc
        rw [opens_eq, if_neg (by simpa using hopens)] at hshape
        rw [hcode]
        rcases hshape with rfl | ⟨line, rfl, hline⟩
        · exact List.forall_mem_nil _
        · exact List.forall_mem_singleton.2 (isText_indent hline _)
      · rw [emitted_of_not_accepts hne hacc]
        exact List.forall_mem_nil _

instance (st : State) (text : String) : Decidable (Accepts st text) :=
  inferInstanceAs (Decidable (_ = []))

/-- The line opens a block and is not accepted. -/
def IsRefusedHeader (st : State) (text : String) : Prop :=
  "\x7b" ∈ tokenize text ∧ ¬ Accepts st text

instance (st : State) (text : String) : Decidable (IsRefusedHeader st text) :=
  inferInstanceAs (Decidable (_ ∧ _))

/-- The open blocks grow by the braces that are emitted and by the one that a refused header does
not emit. -/
theorem count_ofLine (st : State) {text : String} (htrim : trim text = text) :
    st.blocks.length + count "\x7b" (ofLine st text).emitted +
        (if IsRefusedHeader st text then 1 else 0) =
      (ofLine st text).state.blocks.length + count "\x7d" (ofLine st text).emitted := by
  have hemits := emits_ofLine st htrim
  generalize (ofLine st text).emitted = emitted at hemits ⊢
  cases hemits with
  | closes hb hblocks hno hbrace =>
    rw [if_neg fun h => hno h.1, hblocks, hb, count_cons, count_cons, hbrace]
    simp
  | opens hblocks hacc hhead hbrace =>
    rw [if_neg fun h => h.2 hacc, hblocks]
    simp only [count_cons, hbrace, if_neg hhead.1, if_neg hhead.2]
    simp
  | refuses hblocks hopens hno =>
    rw [if_pos ⟨hopens, hno⟩, hblocks]
    simp
  | keeps hblocks hno h =>
    rw [if_neg fun h => hno h.1, hblocks, (count_text h).1, (count_text h).2]

theorem isMatched_ofLine {st : State} {text : String} (htrim : trim text = text)
    (h : ¬ IsRefusedHeader st text) (tail : List String) :
    isMatched st.blocks.length ((ofLine st text).emitted ++ tail) =
      isMatched (ofLine st text).state.blocks.length tail := by
  have hemits := emits_ofLine st htrim
  generalize (ofLine st text).emitted = emitted at hemits ⊢
  cases hemits with
  | closes hb hblocks _ hbrace =>
    rw [hblocks, hb, List.length_cons]
    exact isMatched_closing hbrace _ _
  | opens hblocks _ hhead hbrace =>
    have htext : ∀ line ∈ [_], IsText line := List.forall_mem_singleton.2 hhead
    rw [hblocks, List.length_cons, ← isMatched_opening hbrace]
    exact isMatched_text htext _ _
  | refuses _ hopens hno => exact absurd ⟨hopens, hno⟩ h
  | keeps hblocks _ htext => rw [hblocks, isMatched_text htext]

end Step

/-! ## The braces of a run -/

namespace Run

open Layout

/-- The numbers of the lines that open a block and are not accepted. -/
def refusedHeaders (program : List String) : List Nat :=
  (program.zipIdx.filter fun p => Step.IsRefusedHeader (before program p.2) p.1).map (·.2 + 1)

theorem refusedHeaders_eq_nil_iff {program : List String} :
    refusedHeaders program = [] ↔
      ∀ p ∈ program.zipIdx, ¬ Step.IsRefusedHeader (before program p.2) p.1 := by
  simp [refusedHeaders, List.filter_eq_nil_iff]

section

variable {program : List String} (htrim : ∀ x ∈ program, trim x = x)

include htrim

theorem count_ofLines {k : Nat} {xs : List String} (h : program.drop k = xs) :
    (before program k).blocks.length + count "\x7b" (Step.ofLines (before program k) xs).emitted +
        (xs.zipIdx k).countP (fun p => Step.IsRefusedHeader (before program p.2) p.1) =
      (Step.ofLines (before program k) xs).state.blocks.length +
        count "\x7d" (Step.ofLines (before program k) xs).emitted := by
  induction xs generalizing k with
  | nil => simp [Step.ofLines]
  | cons x xs ih =>
    obtain ⟨hx, hrest⟩ := getElem?_of_drop h
    have hline := Step.count_ofLine (before program k) (htrim x (List.mem_of_getElem? hx))
    have hlines := ih hrest
    rw [before_succ hx] at hlines
    simp only [Step.ofLines, count_append, List.zipIdx_cons, List.countP_cons, decide_eq_true_eq]
    omega

theorem isMatched_ofLines {k : Nat} {xs : List String} (h : program.drop k = xs)
    (hno : ∀ p ∈ xs.zipIdx k, ¬ Step.IsRefusedHeader (before program p.2) p.1) :
    isMatched (before program k).blocks.length (Step.ofLines (before program k) xs).emitted =
      isMatched (Step.ofLines (before program k) xs).state.blocks.length [] := by
  induction xs generalizing k with
  | nil => rfl
  | cons x xs ih =>
    obtain ⟨hx, hrest⟩ := getElem?_of_drop h
    obtain ⟨hhead, hno⟩ := List.forall_mem_cons.1 hno
    have hlines := ih hrest hno
    rw [before_succ hx] at hlines
    rw [Step.ofLines, Step.isMatched_ofLine (htrim x (List.mem_of_getElem? hx)) hhead]
    exact hlines

end

end Run

/-- A run that succeeds emits one closing brace too many for each header that it refuses, and the
braces of its code match exactly when it refuses none. -/
theorem braces_of_success (input : List String)
    (h : (Run.ofLines (solidLines input)).succeeded = true) :
    let program := solidLines input
    let body := (Run.ofLines program).body
    Layout.count "\x7d" body = Layout.count "\x7b" body + (Run.refusedHeaders program).length ∧
      (Layout.isMatched 0 body = true ↔ Run.refusedHeaders program = []) := by
  intro program body
  have htrim : ∀ x ∈ program, trim x = x := fun x hx => trim_of_mem_solidLines hx
  have hend : (Step.ofLines (Run.before program 0) program).state.blocks = [] := by
    have hblocks := (Run.succeeded_ofLines program).1 h
    rw [Run.before, List.take_length] at hblocks
    exact hblocks.1
  have hcount : Layout.count "\x7d" body =
      Layout.count "\x7b" body + (Run.refusedHeaders program).length := by
    have hstart : (Run.before program 0).blocks = [] := rfl
    have hall := Run.count_ofLines htrim (List.drop_zero (l := program))
    rw [hend, hstart, List.length_nil, Nat.zero_add, Nat.zero_add] at hall
    rw [Run.refusedHeaders, List.length_map, ← List.countP_eq_length_filter]
    exact hall.symm
  refine ⟨hcount, fun hmatched => ?_, fun hnone => ?_⟩
  · rw [Layout.count_of_isMatched hmatched] at hcount
    exact List.eq_nil_of_length_eq_zero (by omega)
  · have hall := Run.isMatched_ofLines htrim (List.drop_zero (l := program))
      (Run.refusedHeaders_eq_nil_iff.1 hnone)
    rw [hend] at hall
    exact hall

/-- The condition of the check is refused: its block leaves a closing brace behind. -/
theorem braces_of_success_refused :
    let program := solidLines ["please define function void main() \x7b",
      "  thank you for checking if x equals 1 \x7b", "  \x7d", "\x7d"]
    let body := (Run.ofLines program).body
    Layout.count "\x7d" body = Layout.count "\x7b" body + (Run.refusedHeaders program).length ∧
      (Layout.isMatched 0 body = true ↔ Run.refusedHeaders program = []) :=
  braces_of_success _ (by decide +kernel)

/-- A run that succeeds although the second brace that it closes was never opened. -/
theorem unmatched_success :
    let run := Run.ofLines ["please define function void main() \x7b",
      "thank you for checking if x equals 1 \x7b", "\x7d", "\x7d"]
    run.succeeded = true ∧
      run.body = ["public static void Main()", "\x7b", "    \x7d", "\x7d"] ∧
      Layout.isMatched 0 run.body = false := by
  decide +kernel

end Courtesy
