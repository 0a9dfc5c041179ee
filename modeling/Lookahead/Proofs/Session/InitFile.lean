import Lookahead.Proofs.Session.FileReader
import Lookahead.Proofs.Table.Verdict
import Lookahead.Session.InitFile

/-!
Every line of a file that a session does not accept is reported, in the order of the file. The
number in the report counts the lines that are not blank.
-/

namespace Lookahead

namespace Session

variable {s : Session} {failure? : Text → Option Text} {line path : Text} {words : List Text}
  {reply : Reply}

-- A reply that reports no error in its trace, and writes nothing but the page of the table.
structure IsProper (s : Session) (path? : Option Text) (reply : Reply) : Prop where
  calm : ∀ message ∈ reply.trace, message.level = .info
  file : ∀ file ∈ reply.file, path? = some file.1 ∧ s.table.html.toOption = some file.2

theorem isProper_silent (path? : Option Text) : IsProper s path? silent := ⟨nofun, nofun⟩

theorem isProper_printed (path? : Option Text) (out : Text) : IsProper s path? (printed out) :=
  ⟨nofun, nofun⟩

theorem isProper_refused (path? : Option Text) (out : Text) (e : SessionError) :
    IsProper s path? (s.refused out [] e) :=
  ⟨nofun, nofun⟩

theorem isProper_evaluate (h : s.evaluate line = some reply) : IsProper s none reply := by
  unfold evaluate at h
  split at h
  · simp only [Option.bind_eq_bind, Option.bind_eq_some_iff] at h
    obtain ⟨outline, -, h⟩ := h
    split at h <;> cases h <;> exact ⟨by simp [refused, parseMark, outputMark], nofun⟩
  · cases h
    exact ⟨by simp [refused, parseMark], nofun⟩
  · cases h

theorem isProper_writeTable (h : s.writeTable failure? path = some reply) :
    IsProper s (some path) reply := by
  unfold writeTable at h
  split at h
  · cases h
    exact isProper_refused ..
  · simp only [Option.bind_eq_bind, Option.bind_eq_some_iff] at h
    obtain ⟨page, hpage, h⟩ := h
    obtain rfl := Option.some.inj h
    refine ⟨nofun, fun file hfile => ?_⟩
    obtain rfl := Option.some.inj hfile
    exact ⟨rfl, hpage⟩

theorem isProper_execute {path? : Option Text} (h : s.execute failure? words = some reply)
    (hpath : ∀ path rest, words = text "html" :: path :: rest → path? = some path) :
    IsProper s path? reply := by
  unfold execute at h
  split at h
  · obtain rfl := Option.some.inj h
    exact isProper_printed ..
  · rename_i command arguments
    split_ifs at h with hquit htable hsets hhtml
    · obtain rfl := Option.some.inj h
      exact ⟨nofun, nofun⟩
    · obtain ⟨out, -, rfl⟩ := Option.map_eq_some_iff.mp h
      exact isProper_printed ..
    · obtain rfl := Option.some.inj h
      exact isProper_printed ..
    · split at h
      · obtain rfl := Option.some.inj h
        exact isProper_refused ..
      · rename_i path rest
        rw [hpath path rest (by rw [hhtml])]
        exact isProper_writeTable h
    · obtain rfl := Option.some.inj h
      exact isProper_refused ..

-- A line that is no command asks for no file.
theorem isProper_respond (h : s.respond failure? line = some reply) :
    IsProper s (requestedFile? line) reply := by
  unfold respond at h
  split at h
  · rename_i b rest
    split_ifs at h with hcolon
    · refine isProper_execute h fun path words hwords => ?_
      simp [requestedFile?, hcolon, hwords]
    · simpa [requestedFile?, hcolon] using isProper_evaluate h
  · exact isProper_evaluate h

end Session

namespace Directory

variable {d : Directory} {name path : Text}

-- Writing replaces the content of one file.
theorem content?_write (d : Directory) (path content name : Text) :
    (d.write path content).content? name = some content ∨
      (d.write path content).content? name = d.content? name := by
  unfold write
  split
  · rename_i found htarget
    by_cases hname : found = name
    · have hnone : (d.files.filter (·.1 ≠ found)).find? (·.1 = name) = none := by
        simp [hname]
      refine .inl ?_
      rw [content?, List.find?_append, hnone]
      simp [hname]
    · have hsame : (d.files.filter (·.1 ≠ found)).find? (·.1 = name) =
          d.files.find? (·.1 = name) := by
        rw [List.find?_filter]
        congr 1
        funext file
        by_cases hfile : file.1 = name <;> simp [hfile, Ne.symm hname]
      refine .inr ?_
      rw [content?, List.find?_append, hsame]
      simp [content?, hname]
  · exact .inr rfl

end Directory

namespace InitFile

open Text FileReader

-- What a session says to a line of a file. To a blank line it says nothing.
def reply? (s : Session) (d : Directory) (line : Text) : Option Reply :=
  if line.trim.isEmpty then some Session.silent else s.respond d.failure? line.trim

def saved (d : Directory) (reply : Reply) : Directory :=
  match reply.file with
  | some (path, content) => d.write path content
  | none => d

def after (s : Session) (d : Directory) (line : Text) : Directory :=
  ((reply? s d line).map (saved d)).getD d

-- The lines that are read from a file, and the report of a line that is too long. The file may
-- change from line to line.
inductive Reads (s : Session) (name : Text) :
    FileReader → Directory → List Text → List TraceLine → Prop
  | done {r d} (h : r.next ((d.content? name).getD []) = .done) : Reads s name r d [] []
  | tooLong {r d} (h : r.next ((d.content? name).getD []) = .lineTooLong) :
      Reads s name r d [] [unreadable tooLong]
  | line {r r' d line lines cause} (h : r.next ((d.content? name).getD []) = .line line r')
      (behind : Reads s name r' (after s d line) lines cause) :
      Reads s name r d (line :: lines) cause

-- The error of every line, if it has one, up to a line at which the session breaks down.
def outcomes (s : Session) : Directory → List Text → List (Option SessionError)
  | _, [] => []
  | d, line :: lines =>
    match reply? s d line with
    | none => []
    | some reply => reply.error :: outcomes s (saved d reply) lines

-- The number of a line of which the first has a given number: blank lines are not counted.
def numberFrom (number : Nat) (lines : List Text) (i : Nat) : Nat :=
  number + (lines.take i).countP (!·.trim.isEmpty)

-- What the trace says about the lines that have an error.
def reports (s : Session) (number : Nat) (lines : List Text)
    (errors : List (Option SessionError)) : List TraceLine :=
  errors.zipIdx.filterMap fun (error?, i) => error?.map fun e =>
    errorLine (numberFrom number lines i) ((e.message? s.grammar).getD [])

def errors (trace : List TraceLine) : List TraceLine := trace.filter (·.level = .error)

-- The lines of a file leave it as it is.
def Keeps (s : Session) (name content : Text) : Directory → List Text → Prop
  | d, [] => d.content? name = some content
  | d, line :: lines => d.content? name = some content ∧ Keeps s name content (after s d line) lines

variable {s : Session} {d : Directory} {name content rest line : Text} {lines : List Text}
  {cause : List TraceLine} {r r' : FileReader} {p : Progress} {fuel number limit : Nat}

theorem numberFrom_cons (number : Nat) (line : Text) (lines : List Text) (i : Nat) :
    numberFrom number (line :: lines) (i + 1) =
      numberFrom (if line.trim.isEmpty then number else number + 1) lines i := by
  unfold numberFrom
  rw [List.take_succ_cons, List.countP_cons]
  cases line.trim.isEmpty with
  | true => rfl
  | false => exact Nat.add_right_comm number _ 1

-- A line has its place in the file for a number if and only if no blank line stands before it.
theorem numberFrom_eq_iff {i : Nat} (hi : i < lines.length) :
    numberFrom 1 lines i = i + 1 ↔ ∀ line ∈ lines.take i, line.trim.isEmpty = false := by
  have hlength : (lines.take i).length = i := List.length_take_of_le hi.le
  have hall := List.countP_eq_length (p := fun line => !line.trim.isEmpty) (l := lines.take i)
  unfold numberFrom
  simp only [hlength, Bool.not_eq_true'] at hall
  rw [← hall]
  omega

theorem reports_cons (s : Session) (number : Nat) (line : Text) (lines : List Text)
    (reply : Reply) (errors : List (Option SessionError)) :
    reports s number (line :: lines) (reply.error :: errors) =
      complaint s number reply ++
        reports s (if line.trim.isEmpty then number else number + 1) lines errors := by
  have hbehind : reports s (if line.trim.isEmpty then number else number + 1) lines errors =
      (errors.zipIdx 1).filterMap fun (error?, i) => error?.map fun e =>
        errorLine (numberFrom number (line :: lines) i) ((e.message? s.grammar).getD []) := by
    rw [List.zipIdx_succ, List.filterMap_map]
    simp only [reports, Function.comp_def, numberFrom_cons]
  rw [hbehind, reports, complaint, List.zipIdx_cons, List.filterMap_cons]
  cases reply.error <;> rfl

theorem errors_append (first second : List TraceLine) :
    errors (first ++ second) = errors first ++ errors second := List.filter_append ..

theorem errors_complaint (s : Session) (number : Nat) (reply : Reply) :
    errors (complaint s number reply) = complaint s number reply := by
  unfold complaint
  split <;> rfl

theorem reply?_isProper {reply : Reply} (h : reply? s d line = some reply) :
    s.IsProper (Session.requestedFile? line.trim) reply := by
  unfold reply? at h
  split_ifs at h
  · cases h
    exact Session.isProper_silent _
  · exact Session.isProper_respond h

theorem after_eq {reply : Reply} (h : reply? s d line = some reply) :
    after s d line = saved d reply := by
  rw [after, h]
  rfl

theorem length_content?_after (h : ((d.content? name).getD []).length ≤ limit)
    (hpage : (s.table.html.toOption.getD []).length ≤ limit) (line : Text) :
    (((after s d line).content? name).getD []).length ≤ limit := by
  cases hreply : reply? s d line with
  | none =>
      rw [after, hreply]
      exact h
  | some reply =>
      rw [after_eq hreply, saved]
      split
      · rename_i path page hfile
        have htable := ((reply?_isProper hreply).file _ hfile).2
        obtain hnew | hold := d.content?_write path page name
        · rw [hnew, Option.getD_some]
          rwa [htable, Option.getD_some] at hpage
        · rwa [hold]
      · exact h

-- Reading comes to an end, whatever becomes of the file.
theorem exists_reads (h : ((d.content? name).getD []).length ≤ limit)
    (hpage : (s.table.html.toOption.getD []).length ≤ limit) (r : FileReader) :
    ∃ lines cause, Reads s name r d lines cause ∧ lines.length ≤ r.ahead limit := by
  induction hahead : r.ahead limit using Nat.strong_induction_on generalizing r d with
  | _ ahead ih =>
      subst hahead
      cases hnext : r.next ((d.content? name).getD []) with
      | done => exact ⟨[], [], .done hnext, Nat.zero_le _⟩
      | lineTooLong => exact ⟨[], _, .tooLong hnext, Nat.zero_le _⟩
      | line line r' =>
          have hless := ahead_nextFrom_lt h hnext
          obtain ⟨lines, cause, hreads, hlength⟩ :=
            ih _ hless (length_content?_after h hpage line) r' rfl
          exact ⟨line :: lines, cause, .line hnext hreads, Nat.succ_le_of_lt (by omega)⟩

theorem Reads.unique {lines' : List Text} {cause' : List TraceLine}
    (h : Reads s name r d lines cause) (h' : Reads s name r d lines' cause') :
    lines = lines' ∧ cause = cause' := by
  induction h generalizing lines' cause' with
  | done hnext =>
      cases h' with
      | done => exact ⟨rfl, rfl⟩
      | tooLong hother => exact nomatch hnext.symm.trans hother
      | line hother => exact nomatch hnext.symm.trans hother
  | tooLong hnext =>
      cases h' with
      | done hother => exact nomatch hnext.symm.trans hother
      | tooLong => exact ⟨rfl, rfl⟩
      | line hother => exact nomatch hnext.symm.trans hother
  | line hnext _ ih =>
      cases h' with
      | done hother => exact nomatch hnext.symm.trans hother
      | tooLong hother => exact nomatch hnext.symm.trans hother
      | line hother hbehind =>
          cases hnext.symm.trans hother
          obtain ⟨rfl, rfl⟩ := ih hbehind
          exact ⟨rfl, rfl⟩

theorem Keeps.content_eq (h : Keeps s name content d lines) : d.content? name = some content := by
  cases lines with
  | nil => exact h
  | cons => exact h.1

theorem after_of_requestedFile? (h : Session.requestedFile? line.trim = none) :
    after s d line = d := by
  cases hreply : reply? s d line with
  | none =>
      rw [after, hreply]
      rfl
  | some reply =>
      have hfile : reply.file = none := by
        refine Option.eq_none_iff_forall_not_mem.mpr fun file hmem => ?_
        exact nomatch h.symm.trans ((reply?_isProper hreply).file file hmem).1
      rw [after_eq hreply, saved, hfile]

theorem keeps_of_requestedFile? (hcontent : d.content? name = some content)
    (h : ∀ line ∈ lines, Session.requestedFile? line.trim = none) :
    Keeps s name content d lines := by
  induction lines with
  | nil => exact hcontent
  | cons line lines ih =>
      rw [List.forall_mem_cons] at h
      rw [Keeps, after_of_requestedFile? h.1]
      exact ⟨hcontent, ih h.2⟩

-- A file that stays as it is is read line by line.
theorem Keeps.reads (hkeeps : Keeps s name content d ((linesOf rest).map dropReturn))
    (hat : IsAt content r rest) (hshort : ∀ line ∈ linesOf rest, line.length < lastCapacity) :
    Reads s name r d ((linesOf rest).map dropReturn) [] := by
  induction hlength : rest.length using Nat.strong_induction_on generalizing rest r d with
  | _ length ih =>
      subst hlength
      have hcontent : (d.content? name).getD [] = content := by
        rw [hkeeps.content_eq, Option.getD_some]
      by_cases hrest : rest = []
      · have hnext := hat.gives_next (by simp [hrest, firstLine, lastCapacity])
        subst hrest
        cases hreading : r.next content <;> rw [hreading] at hnext
        · exact absurd rfl hnext.1
        · exact hnext.elim
        · exact .done (hcontent ▸ hreading)
      · rw [linesOf_eq hrest] at hkeeps hshort ⊢
        have hnext := hat.gives_next (hshort _ List.mem_cons_self)
        cases hreading : r.next content <;> rw [hreading] at hnext
        · obtain ⟨-, rfl, hbehind⟩ := hnext
          refine .line (hcontent ▸ hreading) ?_
          exact ih _ (length_behindLine_lt hrest) hkeeps.2 hbehind
            (fun line hline => hshort line (List.mem_cons_of_mem _ hline)) rfl
        · exact hnext.elim
        · exact absurd hnext hrest

theorem trace_record (p : Progress) (reply : Reply) :
    (p.record reply).trace = p.trace ++ reply.trace := by
  unfold Progress.record
  split <;> rfl

theorem directory_record (p : Progress) (reply : Reply) :
    (p.record reply).directory = saved p.directory reply := by
  unfold Progress.record saved
  cases reply.file <;> rfl

-- Answering a line adds the report of its error, and no other.
theorem errors_step (number : Nat) (p : Progress) {reply : Reply}
    (h : reply? s d line = some reply) :
    errors ((p.record reply).add [] (complaint s number reply)).trace =
      errors p.trace ++ complaint s number reply := by
  have hcalm : errors reply.trace = [] := by
    refine List.filter_eq_nil_iff.mpr fun message hmessage => ?_
    simp [(reply?_isProper h).calm message hmessage]
  show errors ((p.record reply).trace ++ complaint s number reply) = _
  rw [errors_append, trace_record, errors_append, hcalm, errors_complaint, List.append_nil]

theorem run_line (hnext : r.next ((p.directory.content? name).getD []) = .line line r') :
    run s name (fuel + 1) number r p =
      match reply? s p.directory line with
      | none => p.broken
      | some reply =>
        run s name fuel (if line.trim.isEmpty then number else number + 1) r'
          ((p.record reply).add [] (complaint s number reply)) := by
  have hsilent : (p.record Session.silent).add [] (complaint s number Session.silent) = p := by
    simp [Progress.record, Progress.add, complaint, Session.silent]
  rw [run, hnext]
  unfold reply?
  dsimp only
  split_ifs with hblank
  · dsimp only
    rw [hsilent]
  · rfl

theorem errors_run (h : Reads s name r d lines cause) (hd : p.directory = d)
    (hfuel : lines.length < fuel) :
    errors (run s name fuel number r p).trace =
      errors p.trace ++ reports s number lines (outcomes s d lines) ++
        if (outcomes s d lines).length = lines.length then cause else [] := by
  induction h generalizing fuel number p with
  | done hnext =>
      obtain ⟨fuel, rfl⟩ := Nat.exists_eq_succ_of_ne_zero (Nat.ne_of_gt hfuel)
      rw [run, hd, hnext]
      simp [outcomes, reports]
  | tooLong hnext =>
      obtain ⟨fuel, rfl⟩ := Nat.exists_eq_succ_of_ne_zero (Nat.ne_of_gt hfuel)
      rw [run, hd, hnext]
      show errors (p.trace ++ [unreadable tooLong]) = _
      rw [errors_append]
      simp [outcomes, reports, errors, unreadable]
  | @line r r' d line lines cause hnext behind ih =>
      subst hd
      obtain ⟨fuel, rfl⟩ := Nat.exists_eq_succ_of_ne_zero (Nat.ne_zero_of_lt hfuel)
      rw [run_line hnext]
      cases hreply : reply? s p.directory line with
      | none => simp [outcomes, hreply, reports, Progress.broken]
      | some reply =>
          have hdirectory : ((p.record reply).add [] (complaint s number reply)).directory =
              after s p.directory line := by
            rw [after_eq hreply]
            exact directory_record p reply
          dsimp only
          rw [ih hdirectory (Nat.lt_of_succ_lt_succ hfuel), errors_step number p hreply,
            after_eq hreply, outcomes, hreply]
          simp only [reports_cons, List.length_cons, Nat.add_right_cancel_iff, List.append_assoc]

-- Only a file has lines, and it has a name.
theorem load_eq {inner : Text} (hfile : d.find name = .file inner) :
    load s name (.start d) =
      run s inner (byteLimit s ((d.content? inner).getD []) + 2) 1 .new (.start d) := by
  have hname : name.isEmpty = false := by
    cases name with
    | nil => exact nomatch hfile
    | cons => rfl
  rw [load, hname, Progress.start, hfile]
  rfl

theorem errors_load {inner : Text} (hfile : d.find name = .file inner)
    (hcontent : d.content? inner = some content) :
    ∃ lines cause, Reads s inner .new d lines cause ∧
      errors (load s name (.start d)).trace =
        reports s 1 lines (outcomes s d lines) ++
          if (outcomes s d lines).length = lines.length then cause else [] := by
  have hlength : ((d.content? inner).getD []).length ≤ byteLimit s content := by
    rw [hcontent]
    exact Nat.le_add_right _ _
  obtain ⟨lines, cause, hreads, hbound⟩ :=
    exists_reads (r := .new) hlength (Nat.le_add_left _ _)
  have hfuel : lines.length < byteLimit s content + 2 := by
    simp only [ahead, FileReader.new, List.length_nil] at hbound
    omega
  refine ⟨lines, cause, hreads, ?_⟩
  rw [load_eq hfile, hcontent]
  exact errors_run hreads rfl hfuel

-- A line that is not accepted has a report, and reports come in the order of the lines. A report
-- has the right number if and only if there is no blank line before its line.
theorem errors_numbered {inner : Text} (hfile : d.find name = .file inner)
    (hcontent : d.content? inner = some content) :
    ∃ lines cause, Reads s inner .new d lines cause ∧
      errors (load s name (.start d)).trace =
        reports s 1 lines (outcomes s d lines) ++
          (if (outcomes s d lines).length = lines.length then cause else []) ∧
      (Keeps s inner content d ((linesOf content).map dropReturn) →
        (∀ line ∈ linesOf content, line.length < lastCapacity) →
        lines = (linesOf content).map dropReturn ∧ cause = []) ∧
      ∀ i < lines.length, numberFrom 1 lines i = i + 1 ↔
        ∀ line ∈ lines.take i, line.trim.isEmpty = false := by
  obtain ⟨lines, cause, hreads, herrors⟩ := errors_load hfile hcontent
  refine ⟨lines, cause, hreads, herrors, fun hkeeps hshort => ?_, fun i hi => ?_⟩
  · exact hreads.unique (hkeeps.reads (isAt_new content) hshort)
  · exact numberFrom_eq_iff hi

def withFile (content : Text) : Directory := ⟨[(text "i.txt", content)]⟩

theorem reply?_unknown (s : Session) (d : Directory) :
    reply? s d (text ":x") = some (s.refused [] [] (.unknownCommand (text "x"))) := by
  have htrim : (text ":x").trim = text ":x" := by decide +kernel
  have hwords : Text.words (text "x") = [text "x"] := by decide +kernel
  rw [reply?, htrim]
  show s.execute d.failure? (Text.words (text "x")) = _
  rw [hwords]
  rfl

theorem outcomes_unknown (s : Session) (d : Directory) (lines : List Text) :
    outcomes s d (text ":x" :: lines) = some (.unknownCommand (text "x")) :: outcomes s d lines := by
  rw [outcomes, reply?_unknown]
  rfl

theorem outcomes_empty (s : Session) (d : Directory) (lines : List Text) :
    outcomes s d ([] :: lines) = none :: outcomes s d lines := rfl

theorem exists_start : ∃ s, Session.start = .ok s := by
  obtain ⟨t, hb, -, -⟩ := Table.exists_expressionTable
  exact ⟨⟨t⟩, congrArg (Except.map Session.mk) hb⟩

theorem errors_numbered_unknown : ∃ s, Session.start = .ok s ∧
    let d := withFile (text ":x\n\n:x\n")
    d.find (text "i.txt") = .file (text "i.txt") ∧
      d.content? (text "i.txt") = some (text ":x\n\n:x\n") ∧
      errors (load s (text "i.txt") (.start d)).trace =
        [errorLine 1 (text "unknown command :x"), errorLine 2 (text "unknown command :x")] := by
  obtain ⟨s, hstart⟩ := exists_start
  have hfile : (withFile (text ":x\n\n:x\n")).find (text "i.txt") = .file (text "i.txt") := by
    decide +kernel
  have hcontent : (withFile (text ":x\n\n:x\n")).content? (text "i.txt") =
      some (text ":x\n\n:x\n") := by decide +kernel
  have hlines : (linesOf (text ":x\n\n:x\n")).map dropReturn = [text ":x", [], text ":x"] := by
    decide +kernel
  refine ⟨s, hstart, hfile, hcontent, ?_⟩
  obtain ⟨lines, cause, -, herrors, hall, -⟩ := errors_numbered (s := s) hfile hcontent
  obtain ⟨rfl, rfl⟩ := hall
    (keeps_of_requestedFile? hcontent (by rw [hlines]; decide +kernel)) (by decide +kernel)
  rw [herrors, hlines, outcomes_unknown, outcomes_empty, outcomes_unknown]
  rfl

-- The second line is not accepted, but the report speaks of the first one.
theorem errors_misnumbered : ∃ s, Session.start = .ok s ∧
    let d := withFile (text "\n:x\n")
    let lines := (linesOf (text "\n:x\n")).map dropReturn
    lines = [[], text ":x"] ∧
      outcomes s d lines = [none, some (.unknownCommand (text "x"))] ∧
      errors (load s (text "i.txt") (.start d)).trace =
        [errorLine 1 (text "unknown command :x")] ∧
      errors (load s (text "i.txt") (.start d)).trace ≠
        [errorLine 2 (text "unknown command :x")] := by
  obtain ⟨s, hstart⟩ := exists_start
  have hfile : (withFile (text "\n:x\n")).find (text "i.txt") = .file (text "i.txt") := by
    decide +kernel
  have hcontent : (withFile (text "\n:x\n")).content? (text "i.txt") = some (text "\n:x\n") := by
    decide +kernel
  have hlines : (linesOf (text "\n:x\n")).map dropReturn = [[], text ":x"] := by decide +kernel
  have houtcomes : outcomes s (withFile (text "\n:x\n")) [[], text ":x"] =
      [none, some (.unknownCommand (text "x"))] := by
    rw [outcomes_empty, outcomes_unknown]
    rfl
  have herrors : errors (load s (text "i.txt") (.start (withFile (text "\n:x\n")))).trace =
      [errorLine 1 (text "unknown command :x")] := by
    obtain ⟨lines, cause, hreads, herrors⟩ := errors_load (s := s) hfile hcontent
    have hkeeps : Keeps s (text "i.txt") (text "\n:x\n") (withFile (text "\n:x\n"))
        ((linesOf (text "\n:x\n")).map dropReturn) :=
      keeps_of_requestedFile? hcontent (by rw [hlines]; decide +kernel)
    obtain ⟨rfl, rfl⟩ := hreads.unique (hkeeps.reads (isAt_new _) (by decide +kernel))
    rw [herrors, hlines, houtcomes]
    rfl
  refine ⟨s, hstart, hlines, hlines ▸ houtcomes, herrors, ?_⟩
  rw [herrors]
  decide +kernel

end InitFile

end Lookahead
