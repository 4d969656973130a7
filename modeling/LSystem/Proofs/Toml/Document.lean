import LSystem.Proofs.Toml.Value

/-!
# Documents are read back

The lines of a document are read back one after the other, whatever the lines behind them are, so a
document of writable lines is found again in its text (`read?_encode`). What its lines mean for the
table that they build is of no concern here.
-/

namespace LSystem.Toml

/-- A pair that can be written: its path is not too long, and its value is plain. -/
def Pair.Writable (p : Pair) : Prop :=
  p.1.parents.length < depthLimit - 1 ∧ p.2.Plain (depthLimit - 1)

def Heading.path : Heading → Path
  | table path => path
  | element path => path

structure Section.Writable (s : Section) : Prop where
  heading : s.heading.path.parents.length < depthLimit - 1
  pairs : ∀ p ∈ s.pairs, Pair.Writable p

structure Document.Writable (d : Document) : Prop where
  pairs : ∀ p ∈ d.pairs, Pair.Writable p
  sections : ∀ s ∈ d.sections, s.Writable

/-! ### The lines of a document -/

def Section.lines (s : Section) : List Line := .heading s.heading :: s.pairs.map .pair

def Document.lines (d : Document) : List Line :=
  d.pairs.map .pair ++ d.sections.flatMap Section.lines

namespace Document

theorem ofLines_pairs (ps : List Pair) (rest : List Line) :
    ofLines (ps.map .pair ++ rest) = ⟨ps ++ (ofLines rest).pairs, (ofLines rest).sections⟩ := by
  induction ps with
  | nil => rfl
  | cons p ps ih => rw [List.map_cons, List.cons_append, ofLines, ih, List.cons_append]

theorem ofLines_sections (sections : List Section) :
    ofLines (sections.flatMap Section.lines) = ⟨[], sections⟩ := by
  induction sections with
  | nil => rfl
  | cons s sections ih =>
    rw [List.flatMap_cons, Section.lines, List.cons_append, ofLines, ofLines_pairs, ih,
      List.append_nil]

theorem ofLines_lines (d : Document) : ofLines d.lines = d := by
  rw [lines, ofLines_pairs, ofLines_sections, List.append_nil]

end Document

/-! ### Reading lines -/

/-- Whether a text is read as lines, with as much fuel as its length asks for. -/
def Reads (cs : List Char) (lines : List Line) : Prop :=
  ∀ fuel, cs.length < fuel → lines? fuel cs = some lines

theorem reads_nil : Reads [] [] := by
  intro fuel hfuel
  cases fuel with
  | zero => exact absurd hfuel (Nat.not_lt_zero _)
  | succ fuel => rfl

theorem Reads.newline {cs : List Char} {lines : List Line} (hreads : Reads cs lines) :
    Reads ('\n' :: cs) lines := by
  intro fuel hfuel
  cases fuel with
  | zero => exact absurd hfuel (Nat.not_lt_zero _)
  | succ fuel => exact hreads fuel (Nat.lt_of_succ_lt_succ hfuel)

/-- A line that starts like a key or a heading, up to its end. -/
theorem Reads.line {c : Char} {front cs : List Char} {line : Line} {lines : List Line}
    (hstart : isBlank c = false) (hmark : ['#', '\n', '\r'].contains c = false)
    (hread : line? (c :: (front ++ '\n' :: cs)) = some (line, '\n' :: cs))
    (hreads : Reads cs lines) : Reads (c :: (front ++ '\n' :: cs)) (line :: lines) := by
  intro fuel hfuel
  cases fuel with
  | zero => exact absurd hfuel (Nat.not_lt_zero _)
  | succ fuel =>
    simp only [List.length_cons, List.length_append] at hfuel
    have hnext := hreads fuel (by omega)
    have hskip := skipBlanks_of_stops (stops_cons hstart (front ++ '\n' :: cs))
    have hnot : (decide (c = '#') || decide (c = '\n') || decide (c = '\r')) = false := by
      simpa [and_assoc] using hmark
    rw [lines?, hskip]
    simp only [hnot, Bool.false_eq_true, if_false, hread, lineEnd?_newline, Option.bind_some, hnext,
      Option.map_some]

theorem pair?_encode {p : Pair} (hp : p.Writable) (cs : List Char) :
    pair? (value? (depthLimit - 1))
        (p.1.encode ++ ' ' :: '=' :: ' ' :: (p.2.encode ++ '\n' :: cs)) =
      some (p, '\n' :: cs) := by
  obtain ⟨hpath, hvalue⟩ := hp
  have hequals : Stops (· == '.') (skipBlanks (' ' :: '=' :: ' ' :: (p.2.encode ++ '\n' :: cs))) :=
    stops_cons (by decide) _
  have hread := path?_encode p.1 hpath (stops_cons (by decide) _) hequals
  have hread' := value?_encode hvalue
    (endsValue_cons (show isWordChar '\n' = false by decide) (by decide) (by decide) (by decide) cs)
  obtain ⟨c, front, hfront, hstart⟩ := exists_encode_eq_cons hvalue
  have hskip : skipBlanks (' ' :: (p.2.encode ++ '\n' :: cs)) = p.2.encode ++ '\n' :: cs := by
    rw [skipBlanks_blank, hfront]
    exact skipBlanks_of_stops (stops_cons (isBlank_of_isValueStart hstart) _)
  rw [pair?, hread]
  change ((value? (depthLimit - 1) (skipBlanks (' ' :: (p.2.encode ++ '\n' :: cs)))).map _) = _
  rw [hskip, hread']
  rfl

theorem Reads.pair {p : Pair} (hp : p.Writable) {cs : List Char} {lines : List Line}
    (hreads : Reads cs lines) : Reads (encodePair p ++ cs) (.pair p :: lines) := by
  have hread := pair?_encode hp cs
  obtain ⟨c, front, hfront, hstart⟩ := exists_encodePath_eq_cons p.1
  have hshape : encodePair p ++ cs =
      c :: ((front ++ ' ' :: '=' :: ' ' :: p.2.encode) ++ '\n' :: cs) := by
    simp [encodePair, hfront]
  have hbracket : c ≠ '[' := ne_of_isKeyStart hstart (by decide)
  have hmark : ['#', '\n', '\r'].contains c = false := by
    have hcomment : c ≠ '#' := ne_of_isKeyStart hstart (by decide)
    have hfeed : c ≠ '\n' := ne_of_isKeyStart hstart (by decide)
    have hreturn : c ≠ '\r' := ne_of_isKeyStart hstart (by decide)
    simp [hcomment, hfeed, hreturn]
  rw [hshape]
  refine Reads.line (isBlank_of_isKeyStart hstart) hmark ?_ hreads
  have hshape' : c :: ((front ++ ' ' :: '=' :: ' ' :: p.2.encode) ++ '\n' :: cs) =
      p.1.encode ++ ' ' :: '=' :: ' ' :: (p.2.encode ++ '\n' :: cs) := by simp [hfront]
  rw [line?, if_neg (by simp [hbracket]), hshape', hread]
  rfl

theorem heading?_encode {h : Heading} (hh : h.path.parents.length < depthLimit - 1)
    (cs : List Char) : heading? (h.encode ++ cs) = some (h, '\n' :: cs) := by
  cases h with
  | table path =>
    have hpoint : Stops (· == '.') (skipBlanks (']' :: '\n' :: cs)) := stops_cons (by decide) _
    have hread := path?_encode path hh (stops_cons (by decide) _) hpoint
    obtain ⟨c, front, hfront, hstart⟩ := exists_encodePath_eq_cons path
    have hshape : (Heading.table path).encode ++ cs =
        '[' :: (path.encode ++ ']' :: '\n' :: cs) := by simp [Heading.encode]
    rw [hshape]
    unfold heading?
    split
    · next heq =>
      rw [hfront] at heq
      exact absurd (List.cons.inj (List.cons.inj heq).2).1 (ne_of_isKeyStart hstart (by decide))
    · next heq =>
      rw [← (List.cons.inj heq).2, hread]
      rfl
    · next hnot => exact absurd rfl (hnot _)
  | element path =>
    have hpoint : Stops (· == '.') (skipBlanks (']' :: ']' :: '\n' :: cs)) :=
      stops_cons (by decide) _
    have hread := path?_encode path hh (stops_cons (by decide) _) hpoint
    have hshape : (Heading.element path).encode ++ cs =
        '[' :: '[' :: (path.encode ++ ']' :: ']' :: '\n' :: cs) := by simp [Heading.encode]
    rw [hshape, heading?, hread]
    rfl

theorem Reads.heading {h : Heading} (hh : h.path.parents.length < depthLimit - 1) {cs : List Char}
    {lines : List Line} (hreads : Reads cs lines) :
    Reads (h.encode ++ cs) (.heading h :: lines) := by
  have hread := heading?_encode hh cs
  obtain ⟨front, hfront⟩ : ∃ front, h.encode = '[' :: (front ++ ['\n']) := by
    cases h with
    | table path => exact ⟨path.encode ++ [']'], by simp [Heading.encode]⟩
    | element path => exact ⟨'[' :: path.encode ++ [']', ']'], by simp [Heading.encode]⟩
  have hshape : h.encode ++ cs = '[' :: (front ++ '\n' :: cs) := by simp [hfront]
  rw [hshape] at hread ⊢
  refine Reads.line (by decide) (by decide) ?_ hreads
  rw [line?, if_pos (by rfl), hread]
  rfl

theorem Reads.pairs {ps : List Pair} (hps : ∀ p ∈ ps, Pair.Writable p) {cs : List Char}
    {lines : List Line} (hreads : Reads cs lines) :
    Reads (encodePairs ps ++ cs) (ps.map .pair ++ lines) := by
  induction ps with
  | nil => exact hreads
  | cons p ps ih =>
    have hrest := ih fun p hmem => hps p (List.mem_cons_of_mem _ hmem)
    have hfirst := hrest.pair (hps p (by simp))
    simpa [encodePairs] using hfirst

theorem Reads.section {s : Section} (hs : s.Writable) {cs : List Char} {lines : List Line}
    (hreads : Reads cs lines) : Reads (s.encode ++ cs) (s.lines ++ lines) := by
  have hpairs := hreads.pairs hs.pairs
  have hheading := hpairs.heading hs.heading
  simpa [Section.encode, Section.lines] using hheading

theorem reads_sections {sections : List Section} (hsections : ∀ s ∈ sections, s.Writable) :
    Reads (sections.flatMap fun s => '\n' :: s.encode) (sections.flatMap Section.lines) := by
  induction sections with
  | nil => exact reads_nil
  | cons s sections ih =>
    have hrest := ih fun s hmem => hsections s (List.mem_cons_of_mem _ hmem)
    have hfirst := (hrest.section (hsections s (by simp))).newline
    simpa using hfirst

theorem reads_encode {d : Document} (hd : d.Writable) : Reads d.encode d.lines := by
  obtain ⟨pairs, sections⟩ := d
  have hsections := reads_sections hd.sections
  cases pairs with
  | nil =>
    cases sections with
    | nil => exact reads_nil
    | cons s sections =>
      -- The empty line in front of the first heading is left out.
      have hrest := reads_sections fun s hmem => hd.sections s (List.mem_cons_of_mem _ hmem)
      exact hrest.section (hd.sections s (by simp))
  | cons p pairs => exact hsections.pairs hd.pairs

/-- No document starts with a byte order mark. -/
theorem head?_encode_ne_mark (d : Document) : d.encode.head? ≠ some '\uFEFF' := by
  obtain ⟨pairs, sections⟩ := d
  cases pairs with
  | nil =>
    cases sections with
    | nil => simp [Document.encode]
    | cons s sections =>
      obtain ⟨heading, pairs⟩ := s
      cases heading with
      | table path => simp [Document.encode, Section.encode, Heading.encode]
      | element path => simp [Document.encode, Section.encode, Heading.encode]
  | cons p pairs =>
    obtain ⟨c, front, hfront, hstart⟩ := exists_encodePath_eq_cons p.1
    have hmark : c ≠ '\uFEFF' := ne_of_isKeyStart hstart (by decide)
    simp [Document.encode, encodePairs, encodePair, hfront, hmark]

theorem read?_encode {d : Document} (hd : d.Writable) :
    Document.read? (String.ofList d.encode) = some d := by
  have hmark := head?_encode_ne_mark d
  have hread := reads_encode hd (d.encode.length + 1) (Nat.lt_succ_self _)
  unfold Document.read?
  rw [String.toList_ofList]
  split
  · next heq =>
    rw [heq] at hmark
    exact absurd rfl hmark
  · simp only [hread, Option.map_some, Document.ofLines_lines]

end LSystem.Toml
