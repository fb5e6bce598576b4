import ScriptedPng.Proofs.Lexer.Characters

/-!
# Pushing tokens back

Tokens are read, and the last token is pushed back and read again, as often as one likes and in any
order, and single characters may be read in between. No token is lost in this way and none is given
twice: apart from the tokens that were pushed back, the calls give what they would give if nothing
was ever pushed back.

## Main definitions

* `Lexer.Request`, `Lexer.Answer` — what is asked of the lexer, and what it answers.
* `Lexer.session` — the answers to several requests, and what becomes of the lexer.
* `Lexer.kept` — what has been given and not been pushed back.

## Main statements

* `Lexer.standing_session` — what is known of the last token after any requests.
* `Lexer.session_plain` — a session is one without push-back, but for a token pushed back last.
* `Lexer.pushBack_exact` — tokens are neither lost nor given twice, and characters never are.
-/

namespace ScriptedPng.Lexer

open Diagnostic

/-! ## Sessions -/

/-- What is asked of the lexer. -/
inductive Request where
  | next
  | push
  | readChar
deriving DecidableEq

/-- What reading a token has come to. -/
abbrev Reply := Except Diagnostic (Option Token)

/-- What the lexer answers. -/
inductive Answer where
  | next (reply : Reply)
  | push (done : Bool)
  | readChar (reading : Except Diagnostic Reading)

/-- The answer to a request, and what becomes of the lexer. -/
def Request.answer (lexer : Lexer) : Request → Answer × Lexer
  | next => (ended (Lexer.next lexer)).map .next id
  | push =>
    match lexer.push with
    | some after => (.push true, after)
    | none => (.push false, lexer)
  | readChar => (ended (Lexer.readChar lexer)).map .readChar id

/-- The answers to several requests, and what becomes of the lexer. -/
def session (start : Lexer) (requests : List Request) : List Answer × Lexer :=
  requests.foldl (fun (answers, lexer) request =>
    let (answer, after) := request.answer lexer
    (answers ++ [answer], after)) ([], start)

/-- The reply among the answers to a call for a token. -/
def Answer.reply? : Answer → Option Reply
  | next reply => some reply
  | push _ | readChar _ => none

/-- What the last call for a token has come to, whether pushed back or not. -/
def lastReply (answers : List Answer) : Option Reply :=
  (answers.filterMap Answer.reply?).getLast?

/-- A reply is added to those before it; the last one is taken away if it is pushed back. -/
def Answer.keep (replies : List Reply) : Answer → List Reply
  | next reply => replies ++ [reply]
  | push done => if done then replies.dropLast else replies
  | readChar _ => replies

/-- The replies that have not been pushed back. -/
def kept (answers : List Answer) : List Reply :=
  answers.foldl Answer.keep []

variable {start lexer after : Lexer} {requests : List Request} {request : Request}
  {answers : List Answer} {answer : Answer}

theorem session_concat (start : Lexer) (requests : List Request) (request : Request) :
    session start (requests ++ [request]) =
      ((session start requests).1 ++ [(request.answer (session start requests).2).1],
        (request.answer (session start requests).2).2) := by
  rw [session, List.foldl_append]
  rfl

theorem kept_concat (answers : List Answer) (answer : Answer) :
    kept (answers ++ [answer]) = answer.keep (kept answers) := by
  rw [kept, List.foldl_append]
  rfl

theorem lastReply_concat (answers : List Answer) (answer : Answer) :
    lastReply (answers ++ [answer]) = answer.reply?.or (lastReply answers) := by
  rw [lastReply, List.filterMap_append]
  cases answer <;> simp [Answer.reply?, lastReply]

/-! ## The last token -/

theorem push_eq_some_iff : lexer.push = some after ↔
    lexer.pushed = false ∧ lexer.token ≠ none ∧ after = { lexer with pushed := true } := by
  unfold push
  split
  · rename_i h
    refine iff_of_false (fun heq => by cases heq) ?_
    rintro ⟨hpushed, htoken, -⟩
    exact h.elim (ne_true_of_eq_false hpushed) htoken
  · rename_i h
    rw [not_or, Bool.not_eq_true] at h
    rw [and_iff_right h.1, and_iff_right h.2, Option.some.injEq, eq_comm]

theorem push_eq_none_iff : lexer.push = none ↔ lexer.pushed = true ∨ lexer.token = none := by
  unfold push
  split <;> simp_all

/-- The last token is the one found, or the one before if none is. -/
def Remembers (lexer : Lexer) (found : Option Token) (after : Lexer) : Prop :=
  after.pushed = lexer.pushed ∧ after.token = found.or lexer.token

theorem remembers_finish {onEnd : LexerM (Option Token)}
    (h : Outcome (Remembers lexer) (fun _ => Remembers lexer none) (onEnd after))
    (hafter : Remembers lexer none after) :
    Outcome (Remembers lexer) (fun _ => Remembers lexer none) (finish onEnd after) := by
  rw [finish]
  split
  · exact h
  · exact hafter

theorem remembers_readWord (first : Char) (rest : List Reading) (lexer : Lexer) :
    Outcome (Remembers lexer) (fun _ => Remembers lexer none) (readWord first rest lexer) := by
  simp only [readWord]
  split
  · exact ⟨rfl, rfl⟩
  · split
    · exact remembers_finish ⟨rfl, rfl⟩ ⟨rfl, rfl⟩
    · exact ⟨rfl, rfl⟩
    · split
      · exact ⟨rfl, rfl⟩
      · split <;> exact ⟨rfl, rfl⟩

theorem remembers_readString (quote : Char) (rest : List Reading) (lexer : Lexer) :
    Outcome (Remembers lexer) (fun _ => Remembers lexer none) (readString quote rest lexer) := by
  simp only [readString]
  split
  · exact ⟨rfl, rfl⟩
  · split
    · exact remembers_finish ⟨rfl, rfl⟩ ⟨rfl, rfl⟩
    · exact ⟨rfl, rfl⟩
    · split <;> exact ⟨rfl, rfl⟩

theorem remembers_scan (lexer : Lexer) :
    Outcome (Remembers lexer) (fun _ => Remembers lexer none) (scan lexer) := by
  simp only [scan]
  split
  · exact remembers_finish ⟨rfl, rfl⟩ ⟨rfl, rfl⟩
  · exact ⟨rfl, rfl⟩
  · split
    · exact remembers_readString _ _ _
    · split
      · exact ⟨rfl, rfl⟩
      · exact remembers_readWord _ _ _

/-- A token that has been pushed back is given once. -/
theorem remembers_next (lexer : Lexer) :
    Outcome (fun found after => after.pushed = false ∧ after.token = found.or lexer.token)
      (fun _ after => after.pushed = false ∧ after.token = lexer.token) (next lexer) := by
  unfold next
  split
  · exact ⟨rfl, Option.or_self.symm⟩
  · rename_i hpushed
    have hpushed : lexer.pushed = false := by simpa using hpushed
    refine (remembers_scan lexer).mono ?_ ?_
    · exact fun _ _ h => ⟨h.1.trans hpushed, h.2⟩
    · exact fun _ _ h => ⟨h.1.trans hpushed, h.2⟩

theorem pushed_next (lexer : Lexer) : (ended (next lexer)).2.pushed = false :=
  ((remembers_next lexer).mono (fun _ _ h => h.1) fun _ _ h => h.1).ended

/-- The last token has been pushed back, and not been given again. -/
def Recalled (answers : List Answer) : Prop :=
  ∃ before more, answers = before ++ .push true :: more ∧ ∀ reply, Answer.next reply ∉ more

theorem recalled_concat : Recalled (answers ++ [answer]) ↔
    answer = .push true ∨ (∀ reply, answer ≠ .next reply) ∧ Recalled answers := by
  constructor
  · rintro ⟨before, more, heq, hmore⟩
    rcases more.eq_nil_or_concat with rfl | ⟨more, last, rfl⟩
    · obtain ⟨-, hlast⟩ := List.append_inj' heq rfl
      exact .inl (List.cons.inj hlast).1
    · rw [List.concat_eq_append, ← List.cons_append, ← List.append_assoc] at heq
      obtain ⟨rfl, hlast⟩ := List.append_inj' heq rfl
      obtain ⟨rfl, -⟩ := List.cons.inj hlast
      rw [List.concat_eq_append] at hmore
      refine .inr ⟨?_, before, more, rfl, fun reply hmem => ?_⟩
      · rintro reply rfl
        exact hmore reply (List.mem_append_right _ List.mem_cons_self)
      · exact hmore reply (List.mem_append_left _ hmem)
  · rintro (rfl | ⟨hanswer, before, more, rfl, hmore⟩)
    · exact ⟨answers, [], rfl, fun _ => List.not_mem_nil⟩
    · refine ⟨before, more ++ [answer], by simp, fun reply hmem => ?_⟩
      rcases List.mem_append.1 hmem with hmem | hmem
      · exact hmore reply hmem
      · exact hanswer reply (List.mem_singleton.1 hmem).symm

/-- What is known of the lexer after some answers. -/
structure Standing (answers : List Answer) (lexer : Lexer) : Prop where
  clear : Clear lexer
  token_iff : lexer.token = none ↔ ∀ token, Answer.next (.ok (some token)) ∉ answers
  token_last : ∀ token, lastReply answers = some (.ok (some token)) → lexer.token = some token
  pushed_iff : lexer.pushed = true ↔ Recalled answers

theorem standing_start (h : Clear lexer) (htoken : lexer.token = none)
    (hpushed : lexer.pushed = false) : Standing [] lexer where
  clear := h
  token_iff := iff_of_true htoken fun _ => List.not_mem_nil
  token_last _ hlast := by cases hlast
  pushed_iff := by
    rw [hpushed]
    refine iff_of_false Bool.false_ne_true ?_
    rintro ⟨before, more, heq, -⟩
    exact List.append_ne_nil_of_right_ne_nil before (List.cons_ne_nil _ _) heq.symm

/-- Answers other than replies leave the last token as it is. -/
theorem Standing.other (h : Standing answers lexer) (hanswer : answer.reply? = none)
    (hclear : Clear after) (htoken : after.token = lexer.token)
    (hpushed : after.pushed = true ↔ answer = .push true ∨ lexer.pushed = true) :
    Standing (answers ++ [answer]) after := by
  have hreply (reply : Reply) : answer ≠ .next reply := by
    rintro rfl
    cases hanswer
  refine ⟨hclear, ?_, ?_, ?_⟩
  · rw [htoken, h.token_iff]
    refine forall_congr' fun token => not_congr ?_
    rw [List.mem_append, List.mem_singleton]
    exact (or_iff_left (hreply _).symm).symm
  · rw [lastReply_concat, hanswer, htoken]
    exact h.token_last
  · rw [hpushed, recalled_concat, h.pushed_iff, and_iff_right hreply]

/-- A reply is the last one, and what it gives is the last token. -/
theorem Standing.reply (h : Standing answers lexer) {reply : Reply} (found : Option Token)
    (hreply : ∀ token, reply = .ok (some token) ↔ found = some token) (hclear : Clear after)
    (htoken : after.token = found.or lexer.token) (hpushed : after.pushed = false) :
    Standing (answers ++ [.next reply]) after := by
  refine ⟨hclear, ?_, ?_, ?_⟩
  · have hmem (token : Token) : Answer.next (.ok (some token)) ∈ answers ++ [.next reply] ↔
        Answer.next (.ok (some token)) ∈ answers ∨ found = some token := by
      rw [List.mem_append, List.mem_singleton, Answer.next.injEq, eq_comm, hreply]
    rw [htoken, Option.or_eq_none_iff, and_comm, h.token_iff, Option.eq_none_iff_forall_ne_some]
    simp only [hmem, not_or, forall_and, ne_eq]
  · intro token hlast
    rw [lastReply_concat] at hlast
    rw [htoken, (hreply token).1 (Option.some.inj hlast)]
    rfl
  · rw [hpushed, recalled_concat]
    simp

/-- Reading a character has nothing to do with tokens. -/
theorem remembers_readChar (lexer : Lexer) :
    Outcome (fun _ => Remembers lexer none) (fun _ => Remembers lexer none) (readChar lexer) := by
  unfold readChar
  split <;> exact ⟨rfl, rfl⟩

/-- What is known goes over to the next answer. -/
theorem Standing.concat (h : Standing answers lexer) (request : Request) :
    Standing (answers ++ [(request.answer lexer).1]) (request.answer lexer).2 := by
  cases request with
  | next =>
    have hnext := (clear_next h.clear).and (remembers_next lexer)
    rw [Request.answer]
    cases hresult : next lexer with
    | ok found after =>
      rw [hresult] at hnext
      obtain ⟨hclear, hpushed, htoken⟩ := hnext
      exact h.reply found (fun _ => by simp) hclear htoken hpushed
    | error diagnostic after =>
      rw [hresult] at hnext
      obtain ⟨hclear, hpushed, htoken⟩ := hnext
      exact h.reply none (fun _ => by simp) hclear htoken hpushed
  | push =>
    rw [Request.answer]
    cases hpush : lexer.push with
    | some after =>
      obtain ⟨-, -, rfl⟩ := push_eq_some_iff.1 hpush
      exact h.other rfl (h.clear.push hpush) rfl (by simp)
    | none => exact h.other rfl h.clear rfl (by simp)
  | readChar =>
    obtain ⟨hclear, hpushed, htoken⟩ :=
      ((clear_readChar h.clear).and (remembers_readChar lexer)).ended
    exact h.other rfl hclear htoken (by simp [Request.answer, hpushed])

/-- What is known after any requests, by induction on them. -/
theorem Standing.session (h : Standing [] start) (requests : List Request) :
    Standing (session start requests).1 (session start requests).2 := by
  induction requests using List.reverseRecOn with
  | nil => exact h
  | append_singleton requests request ih =>
    rw [session_concat]
    exact ih.concat request

/-! ## Without push-back -/

/-- A session of calls for tokens only. -/
def plain (start : Lexer) (n : Nat) : List Answer × Lexer :=
  session start (List.replicate n .next)

theorem plain_succ (start : Lexer) (n : Nat) : plain start (n + 1) =
    ((plain start n).1 ++ [(Request.next.answer (plain start n).2).1],
      (Request.next.answer (plain start n).2).2) := by
  rw [plain, List.replicate_succ', session_concat]
  rfl

/-- Each call gives a reply. -/
theorem kept_plain_succ (start : Lexer) (n : Nat) : kept (plain start (n + 1)).1 =
    kept (plain start n).1 ++ [(ended (next (plain start n).2)).1] := by
  rw [plain_succ, kept_concat]
  rfl

theorem length_kept_plain (start : Lexer) (n : Nat) : (kept (plain start n).1).length = n := by
  induction n with
  | zero => rfl
  | succ n ih => rw [kept_plain_succ, List.length_append, ih, List.length_singleton]

/-- The reply that is to be given again. -/
def due (lexer : Lexer) : List Reply :=
  if lexer.pushed then [.ok lexer.token] else []

/-- A token is pushed back only if the last call for one has given it. -/
def Proper (answers : List Answer) : Prop :=
  ∀ before done more, answers = before ++ .push done :: more →
    ∃ token, lastReply before = some (.ok (some token))

/-- A session is one without push-back: the replies that have been kept, and the one that is to be
given again, are those of calls for tokens only. -/
structure AsPlain (start : Lexer) (answers : List Answer) (lexer : Lexer) (n : Nat) : Prop where
  lexer_eq : { lexer with pushed := false } = (plain start n).2
  kept_eq : kept answers ++ due lexer = kept (plain start n).1
  last_eq : (kept answers ++ due lexer).getLast? = lastReply answers

variable {n : Nat}

/-- A token that is to be given again is given; otherwise the next one is read. -/
theorem AsPlain.next (h : AsPlain start answers lexer n) :
    ∃ n, AsPlain start (answers ++ [(Request.next.answer lexer).1])
      (Request.next.answer lexer).2 n := by
  have hlexer := h.lexer_eq
  have hkept := h.kept_eq
  cases hpushed : lexer.pushed with
  | true =>
    have hresult : Request.next.answer lexer =
        (.next (.ok lexer.token), { lexer with pushed := false }) := by
      simp only [Request.answer, Lexer.next, hpushed, if_true]
      rfl
    rw [due, hpushed, if_pos rfl] at hkept
    refine ⟨n, ?_, ?_, ?_⟩
    · rw [hresult]
      exact hlexer
    · rw [hresult, kept_concat]
      exact (List.append_nil _).trans hkept
    · rw [hresult, kept_concat, lastReply_concat]
      simp [Answer.keep, Answer.reply?, due]
  | false =>
    have hsame : lexer = (plain start n).2 := by rw [← hlexer, ← hpushed]
    have hafter : (Request.next.answer lexer).2.pushed = false := pushed_next lexer
    have hdue : due (Request.next.answer lexer).2 = [] := by
      rw [due, hafter]
      rfl
    rw [due, hpushed, if_neg Bool.false_ne_true, List.append_nil] at hkept
    refine ⟨n + 1, ?_, ?_, ?_⟩
    · rw [plain_succ, ← hsame, ← hafter]
    · rw [hdue, List.append_nil, kept_concat, kept_plain_succ, ← hkept, ← hsame]
      rfl
    · rw [hdue, List.append_nil, kept_concat, lastReply_concat]
      simp [Answer.keep, Answer.reply?, Request.answer]

/-- What is pushed back is the last token that has been kept. -/
theorem AsPlain.push (h : AsPlain start answers lexer n) (hstanding : Standing answers lexer)
    {token : Token} (hlast : lastReply answers = some (.ok (some token))) :
    AsPlain start (answers ++ [(Request.push.answer lexer).1])
      (Request.push.answer lexer).2 n := by
  have hlexer := h.lexer_eq
  have hkept := h.kept_eq
  have hend := h.last_eq
  rw [Request.answer]
  cases hpush : lexer.push with
  | none =>
    refine ⟨hlexer, ?_, ?_⟩
    · rw [kept_concat]
      exact hkept
    · rw [kept_concat, lastReply_concat]
      exact hend
  | some after =>
    obtain ⟨hpushed, -, rfl⟩ := push_eq_some_iff.1 hpush
    have htoken := hstanding.token_last token hlast
    rw [due, hpushed, if_neg Bool.false_ne_true, List.append_nil] at hkept hend
    have hback : (kept answers).dropLast ++ [.ok lexer.token] = kept answers := by
      rw [htoken]
      exact List.dropLast_append_getLast? _ (hend.trans hlast)
    refine ⟨hlexer, ?_, ?_⟩
    · rw [kept_concat]
      exact hback.trans hkept
    · rw [kept_concat, lastReply_concat]
      exact (congrArg List.getLast? hback).trans hend

theorem Proper.of_concat (h : Proper (answers ++ [answer])) : Proper answers :=
  fun before done more heq => h before done (more ++ [answer]) (by simp [heq])

/-- By induction on the requests. -/
theorem session_plain (h : Standing [] start) (hpushed : start.pushed = false)
    (hchar : .readChar ∉ requests) (hproper : Proper (session start requests).1) :
    ∃ n, AsPlain start (session start requests).1 (session start requests).2 n := by
  induction requests using List.reverseRecOn with
  | nil =>
    have hdue : due start = [] := by
      rw [due, hpushed]
      rfl
    refine ⟨0, ?_, ?_, ?_⟩
    · show { start with pushed := false } = start
      rw [← hpushed]
    · show [] ++ due start = []
      exact hdue
    · show ([] ++ due start).getLast? = none
      rw [hdue]
      rfl
  | append_singleton requests request ih =>
    rw [session_concat] at hproper ⊢
    obtain ⟨n, hplain⟩ := ih (fun hmem => hchar (List.mem_append_left _ hmem)) hproper.of_concat
    cases request with
    | next => exact hplain.next
    | push =>
      have hanswer : ∃ done, (Request.push.answer (session start requests).2).1 = .push done := by
        rw [Request.answer]
        cases (session start requests).2.push with
        | some after => exact ⟨true, rfl⟩
        | none => exact ⟨false, rfl⟩
      obtain ⟨done, hdone⟩ := hanswer
      obtain ⟨token, hlast⟩ := hproper _ done [] (by rw [hdone])
      exact ⟨n, hplain.push (h.session requests) hlast⟩
    | readChar => exact absurd (List.mem_append_right _ List.mem_cons_self) hchar

/-- What has been kept is what calls for tokens only would have given first. -/
theorem AsPlain.kept_eq_plain (h : AsPlain start answers lexer n) :
    kept answers = kept (plain start (kept answers).length).1 := by
  have hkept := h.kept_eq
  have hlength := congrArg List.length hkept
  rw [length_kept_plain, List.length_append] at hlength
  cases hpushed : lexer.pushed with
  | false =>
    rw [due, hpushed, if_neg Bool.false_ne_true] at hkept hlength
    rw [List.append_nil] at hkept
    obtain rfl : (kept answers).length = n := hlength
    exact hkept
  | true =>
    rw [due, hpushed, if_pos rfl] at hkept hlength
    obtain rfl : (kept answers).length + 1 = n := hlength
    rw [kept_plain_succ] at hkept
    exact (List.append_inj' hkept rfl).1

/-- Tokens are neither lost nor given twice: what calls for tokens give, apart from what is pushed
back, is what they would give without push-back. Pushing back and reading again leaves the lexer as
it is. There is nothing to push back just if no token has been read or if the last one is pushed
back already. Reading character by character never puts a character back where one is held, whatever
tokens and characters have been read. -/
theorem pushBack_exact (chars : List Char) (fault : Option String) (requests : List Request) :
    let start := ofSource { Source.ofChars chars with fault }
    let answers := (session start requests).1
    let lexer := (session start requests).2
    (.readChar ∉ requests → Proper answers →
      kept answers = kept (plain start (kept answers).length).1) ∧
    (∀ after, lexer.push = some after → next after = .ok lexer.token lexer) ∧
    (lexer.push = none ↔
      (∀ token, Answer.next (.ok (some token)) ∉ answers) ∨ Recalled answers) ∧
    (pushToken lexer =
      match lexer.push with
      | some after => .ok () after
      | none => .error .noToken lexer) ∧
    nextToken lexer = told (next lexer) ∧ nextChar lexer = told (readChar lexer) ∧
    ∀ after, nextToken lexer ≠ .error .occupied after := by
  intro start answers lexer
  have hstart : Standing [] start := standing_start (clear_ofSource chars fault) rfl rfl
  have hstanding : Standing answers lexer := hstart.session requests
  have hnext := nextToken_eq hstanding.clear
  refine ⟨fun hchar hproper => ?_, fun after hpush => ?_, ?_, pushToken_eq lexer, hnext,
    nextChar_eq lexer, fun after heq => ?_⟩
  · obtain ⟨n, hplain⟩ := session_plain hstart rfl hchar hproper
    exact hplain.kept_eq_plain
  · obtain ⟨hpushed, -, rfl⟩ := push_eq_some_iff.1 hpush
    rw [next, if_pos rfl, ← hpushed]
  · rw [push_eq_none_iff, hstanding.token_iff, hstanding.pushed_iff, or_comm]
  · rw [hnext] at heq
    cases hresult : next lexer <;> rw [hresult] at heq <;> cases heq

/-- A token that is pushed back is not lost, and neither is the one after it. -/
theorem pushBack_exact_again :
    let start := ofSource { Source.ofChars ['a', ' ', 'b'] with fault := none }
    let answers := (session start [.next, .push, .next, .next]).1
    .readChar ∉ [Request.next, .push, .next, .next] ∧ Proper answers ∧
    kept answers = [.ok (some ⟨"a", 1, false⟩), .ok (some ⟨"b", 1, false⟩)] ∧
    kept answers = kept (plain start 2).1 := by
  intro start answers
  have hanswers : answers = [.next (.ok (some ⟨"a", 1, false⟩)), .push true,
      .next (.ok (some ⟨"a", 1, false⟩)), .next (.ok (some ⟨"b", 1, false⟩))] := rfl
  have hproper : Proper answers := by
    intro before done more heq
    rw [hanswers] at heq
    rcases before with _ | ⟨first, _ | ⟨second, before⟩⟩
    · cases heq
    · cases heq
      exact ⟨_, rfl⟩
    · obtain ⟨-, hrest⟩ := List.cons.inj heq
      obtain ⟨-, hrest⟩ := List.cons.inj hrest
      have hmem : Answer.push done ∈ [Answer.next (.ok (some ⟨"a", 1, false⟩)),
          .next (.ok (some ⟨"b", 1, false⟩))] := by
        rw [hrest]
        exact List.mem_append_right before List.mem_cons_self
      simp at hmem
  refine ⟨by decide, hproper, rfl, ?_⟩
  exact (pushBack_exact ['a', ' ', 'b'] none [.next, .push, .next, .next]).1 (by decide) hproper

end ScriptedPng.Lexer
