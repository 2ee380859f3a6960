import BeatNotation.Proofs.Places
import BeatNotation.Proofs.Reading
import BeatNotation.Proofs.Reference

/-! Reads one after another. A row of reads goes on after a failure, as a scanner does that is
asked again; a drain is a row that stops at the first read without a token. What two rows come
to is related as long as each pair of their reads is. -/

namespace BeatNotation

/-! ### What a read leaves -/

namespace Cursor

/-- A map of cursors that goes with one step goes with any number of them. -/
theorem pass_map {f : Cursor → Cursor} (h : ∀ c, (f c).consume.2 = f c.consume.2) (c : Cursor)
    (n : Nat) : (f c).pass n = f (c.pass n) := by
  induction n generalizing c with
  | zero => rfl
  | succ n ih => rw [pass_succ, pass_succ, h, ih]

end Cursor

namespace Lexer

variable {x : Lexer} {c : Cursor}

/-- A read that brings a token moves its cursor on. -/
theorem offset_lt_read {t : Token} (h : (x.read c).result = .token t) :
    c.offset < (x.read c).state.offset := by
  obtain ⟨k, hk⟩ := x.exists_pass_read c
  have hless := length_ahead_read_lt h
  rw [hk, Cursor.ahead_pass, List.length_drop] at hless
  rw [hk, Cursor.offset_pass]
  omega

/-- A failing read stops after what its fault has spent, and is placed there. -/
theorem exists_of_read_failure {f : Failure} (h : (x.read c).result = .failure f) :
    ∃ (d : Cursor) (spent : List Char), x.piece d.ahead = .fault f.fault spent ∧
      (x.read c).state = d.pass spent.length ∧ f = (x.read c).state.fail f.fault := by
  induction c using readInduction x with
  | blank c b hp ih =>
    rw [read_of_blank hp] at h ⊢
    exact ih h
  | comment c b hp ih =>
    rw [read_of_comment hp] at h ⊢
    exact ih h
  | lexeme c l hp =>
    rw [read_of_lexeme hp] at h
    cases h
  | fault c g spent hp =>
    rw [read_of_fault hp] at h ⊢
    obtain rfl := Outcome.failure.inj h
    exact ⟨c, spent, hp, rfl, rfl⟩
  | finish c hp =>
    rw [read_of_finish hp] at h
    cases h

/-- A read that brings a token has come to its lexeme. -/
theorem exists_of_read_token {t : Token} (h : (x.read c).result = .token t) :
    ∃ (d : Cursor) (l : Lexeme), x.piece d.ahead = .lexeme l ∧
      t = l.token x.settings.keywords d.location := by
  induction c using readInduction x with
  | blank c b hp ih =>
    rw [read_of_blank hp] at h
    exact ih h
  | comment c b hp ih =>
    rw [read_of_comment hp] at h
    exact ih h
  | lexeme c l hp =>
    rw [read_of_lexeme hp] at h
    exact ⟨c, l, hp, (Outcome.token.inj h).symm⟩
  | fault c f spent hp =>
    rw [read_of_fault hp] at h
    cases h
  | finish c hp =>
    rw [read_of_finish hp] at h
    cases h

/-! ### Rows of reads -/

/-- So many reads one after another, failing ones included. -/
def reads (x : Lexer) (c : Cursor) : Nat → Reply Cursor (List Outcome)
  | 0 => ⟨[], c, []⟩
  | n + 1 =>
    let reply := x.read c
    let later := x.reads reply.state n
    ⟨reply.result :: later.result, later.state, reply.remarks ++ later.remarks⟩

/-- A row of reads with one more at its end. -/
theorem reads_succ (x : Lexer) (c : Cursor) (n : Nat) :
    x.reads c (n + 1) =
      ⟨(x.reads c n).result ++ [(x.read (x.reads c n).state).result],
        (x.read (x.reads c n).state).state,
        (x.reads c n).remarks ++ (x.read (x.reads c n).state).remarks⟩ := by
  induction n generalizing c with
  | zero => simp [reads]
  | succ n ih =>
    have hlater := ih (x.read c).state
    rw [reads, hlater]
    simp [reads]

theorem exists_pass_reads (x : Lexer) (c : Cursor) (n : Nat) :
    ∃ k, (x.reads c n).state = c.pass k := by
  induction n generalizing c with
  | zero => exact ⟨0, rfl⟩
  | succ n ih =>
    obtain ⟨k, hk⟩ := x.exists_pass_read c
    obtain ⟨j, hj⟩ := ih (x.read c).state
    exact ⟨k + j, by rw [Cursor.pass_add, ← hk, ← hj, reads]⟩

/-- More reads leave no more of the text. -/
theorem length_ahead_reads_le (x : Lexer) (c : Cursor) {m n : Nat} (h : m ≤ n) :
    (x.reads c n).state.ahead.length ≤ (x.reads c m).state.ahead.length := by
  induction h with
  | refl => exact Nat.le_refl _
  | step _ ih =>
    rw [reads_succ]
    exact Nat.le_trans (x.length_ahead_read_le _) ih

theorem getElem?_reads (x : Lexer) (c : Cursor) {m n : Nat} (h : m < n) :
    (x.reads c n).result[m]? = some (x.read (x.reads c m).state).result := by
  induction n generalizing c m with
  | zero => exact absurd h m.not_lt_zero
  | succ n ih =>
    cases m with
    | zero => rfl
    | succ m => exact ih (x.read c).state (Nat.lt_of_succ_lt_succ h)

theorem exists_of_mem_reads {o : Outcome} {n : Nat} (h : o ∈ (x.reads c n).result) :
    ∃ m, (x.read (x.reads c m).state).result = o := by
  induction n generalizing c with
  | zero => cases h
  | succ n ih =>
    rcases List.mem_cons.1 h with rfl | h
    · exact ⟨0, rfl⟩
    · obtain ⟨m, hm⟩ := ih h
      exact ⟨m + 1, hm⟩

/-- What holds of all outcomes of a row holds of what each of its reads comes to. -/
theorem read_of_forall_reads {P : Outcome → Prop} {n : Nat} (h : ∀ o ∈ (x.reads c n).result, P o)
    {m : Nat} (hm : m < n) : P (x.read (x.reads c m).state).result :=
  h _ (List.mem_of_getElem? (x.getElem?_reads c hm))

end Lexer

/-- A scanner with nothing in hand answers each request by a read. -/
theorem Scanner.nexts_eq_reads (x : Lexer) (c : Cursor) (n : Nat) :
    (Scanner.mk x c none).nexts n =
      ⟨(x.reads c n).result, .mk x (x.reads c n).state none, (x.reads c n).remarks⟩ := by
  induction n with
  | zero => rfl
  | succ n ih =>
    rw [Lexer.reads_succ]
    simp only [nexts, ih, next]

namespace Session

variable {x : Lexer} {file? : Option String} {source : List Char} {steps : List Step}

/-- A token that a session delivers has been read at some time. -/
theorem exists_read_of_delivered {t : Token} (h : t ∈ delivered steps
      ((Session.mk (.start x file? source) true).run steps)) :
    ∃ n, (x.read (x.reads (Scanner.start x file? source).cursor n).state).result = .token t := by
  obtain ⟨n, hn⟩ := follows_run (s := ⟨.start x file? source, true⟩) (.start rfl) rfl steps
  have htokens := hn.tokens
  rw [List.nil_append] at htokens
  have ht := htokens ▸ List.mem_append_left _ h
  obtain ⟨o, ho, hot⟩ := List.mem_filterMap.1 ht
  obtain rfl : o = .token t := by cases o <;> simp_all [Outcome.token?]
  exact Lexer.exists_of_mem_reads ((Scanner.nexts_eq_reads x _ n) ▸ ho)

/-- A failure that a session reports has been read at some time. -/
theorem exists_read_of_reported {f : Failure} (h : f ∈
      ((Session.mk (.start x file? source) true).run steps).filterMap (·.result.failure?)) :
    ∃ n, (x.read (x.reads (Scanner.start x file? source).cursor n).state).result = .failure f := by
  obtain ⟨n, hn⟩ := follows_run (s := ⟨.start x file? source, true⟩) (.start rfl) rfl steps
  have hfailures := hn.failures
  rw [List.nil_append] at hfailures
  obtain ⟨o, ho, hof⟩ := List.mem_filterMap.1 (hfailures ▸ h)
  obtain rfl : o = .failure f := by cases o <;> simp_all [Outcome.failure?]
  exact Lexer.exists_of_mem_reads ((Scanner.nexts_eq_reads x _ n) ▸ ho)

end Session

/-! ### Drains -/

/-- What a request comes to that ends a drain. -/
def Outcome.ending : Option Failure → Outcome
  | none => finish
  | some f => failure f

namespace Lexer

variable {x : Lexer} {c : Cursor}

/-- A drain makes a read for each of its tokens and one more. -/
theorem reads_drain (x : Lexer) (c : Cursor) :
    let reply := (Scanner.mk x c none).drain
    x.reads c (reply.result.1.length + 1) =
      ⟨reply.result.1.map .token ++ [.ending reply.result.2], reply.state.cursor, reply.remarks⟩ := by
  induction hn : c.ahead.length using Nat.strongRecOn generalizing c with
  | ind n ih =>
    cases hr : (x.read c).result with
    | token t =>
      have hlater := ih _ (hn ▸ length_ahead_read_lt hr) (x.read c).state rfl
      rw [Scanner.drain_of_token hr]
      simp only [List.length_cons] at hlater ⊢
      rw [reads, hlater, hr]
      rfl
    | failure f =>
      rw [Scanner.drain_of_failure hr]
      simp [reads, hr, Outcome.ending]
    | finish =>
      rw [Scanner.drain_of_finish hr]
      simp [reads, hr, Outcome.ending]

/-- A row of reads that bring tokens, and then one that does not, is a drain. -/
theorem drain_of_reads {ts : List Token} {e : Option Failure} {last : Cursor} {rs : List Remark}
    (h : x.reads c (ts.length + 1) = ⟨ts.map .token ++ [.ending e], last, rs⟩) :
    (Scanner.mk x c none).drain = ⟨(ts, e), .mk x last none, rs⟩ := by
  induction ts generalizing c rs with
  | nil =>
    obtain ⟨hr, rfl, rfl⟩ := Reply.mk.inj h
    have hresult : (x.read c).result = .ending e := (List.cons.inj hr).1
    cases e with
    | none => rw [Scanner.drain_of_finish hresult]; simp [reads]
    | some f => rw [Scanner.drain_of_failure hresult]; simp [reads]
  | cons t ts ih =>
    obtain ⟨hr, hlast, rfl⟩ := Reply.mk.inj h
    obtain ⟨hresult, hlater⟩ := List.cons.inj hr
    have hrow : x.reads (x.read c).state (ts.length + 1) =
        ⟨ts.map .token ++ [.ending e], last, (x.reads (x.read c).state (ts.length + 1)).remarks⟩ :=
      Reply.mk.injEq .. ▸ ⟨hlater, hlast, rfl⟩
    rw [Scanner.drain_of_token hresult, ih hrow]
    rfl

end Lexer

/-! ### Rows side by side -/

/-- Replies with the same result and remarks, in states so related. -/
structure Reply.Alike {S T A : Type} (related : S → T → Prop) (r : Reply S A) (r' : Reply T A) :
    Prop where
  result : r.result = r'.result
  remarks : r.remarks = r'.remarks
  state : related r.state r'.state

/-- The outcome with other words for its token or its failure. -/
def Outcome.map (f : Token → Token) (g : Failure → Failure) : Outcome → Outcome
  | token t => token (f t)
  | failure e => failure (g e)
  | finish => finish

/-- Tokens and the end of a drain, each with its other word. -/
theorem Outcome.map_ended (f : Token → Token) (g : Failure → Failure) (ts : List Token)
    (e : Option Failure) : (ts.map token ++ [ending e]).map (Outcome.map f g) =
      (ts.map f).map token ++ [ending (e.map g)] := by
  rw [List.map_append, List.map_map, List.map_map, List.map_singleton]
  cases e <;> rfl

/-- The reply with other words for its result and its remarks. -/
def Reply.map {S A B : Type} (f : A → B) (g : Remark → Remark) (r : Reply S A) : Reply S B :=
  ⟨f r.result, r.state, r.remarks.map g⟩

namespace Lexer

variable {x y : Lexer} {c d : Cursor}

/-- Reads that correspond, as long as those of the first lexer are such, make rows that do. -/
theorem reads_alike (such : Reply Cursor Outcome → Prop) {related : Cursor → Cursor → Prop}
    {f : Outcome → Outcome} {g : Remark → Remark}
    (hread : ∀ c d, related c d → such (x.read c) →
      Reply.Alike related ((x.read c).map f g) (y.read d))
    (h : related c d) {n : Nat} (hsuch : ∀ m < n, such (x.read (x.reads c m).state)) :
    Reply.Alike related ((x.reads c n).map (List.map f) g) (y.reads d n) := by
  induction n generalizing c d with
  | zero => exact ⟨rfl, rfl, h⟩
  | succ n ih =>
    obtain ⟨hresult, hremarks, hstate⟩ := hread c d h (hsuch 0 n.succ_pos)
    have hlater := ih hstate fun m hm => hsuch (m + 1) (Nat.succ_lt_succ hm)
    refine ⟨List.cons_eq_cons.2 ⟨hresult, hlater.result⟩, ?_, hlater.state⟩
    rw [reads, reads, ← hremarks, ← hlater.remarks]
    exact List.map_append

/-- Reads that correspond make drains that do. -/
theorem drain_alike {related : Cursor → Cursor → Prop} {f : Token → Token} {g : Failure → Failure}
    {r : Remark → Remark} (hread : ∀ c d, related c d →
      Reply.Alike related ((x.read c).map (.map f g) r) (y.read d)) (h : related c d) :
    let drained := (Scanner.mk x c none).drain
    ∃ last, related drained.state.cursor last ∧ (Scanner.mk y d none).drain =
      ⟨(drained.result.1.map f, drained.result.2.map g), .mk y last none, drained.remarks.map r⟩ := by
  intro drained
  obtain ⟨hresult, hremarks, hstate⟩ := reads_alike (fun _ => True) (fun c d h _ => hread c d h) h
    (n := drained.result.1.length + 1) fun _ _ => trivial
  have hrow : x.reads c (drained.result.1.length + 1) = _ := x.reads_drain c
  rw [hrow] at hresult hremarks hstate
  have hresult' := hresult.symm.trans (Outcome.map_ended f g _ _)
  have hrow' : y.reads d ((drained.result.1.map f).length + 1) =
      ⟨(drained.result.1.map f).map .token ++ [.ending (drained.result.2.map g)],
        (y.reads d (drained.result.1.length + 1)).state, drained.remarks.map r⟩ := by
    rw [List.length_map]
    exact Reply.mk.injEq .. ▸ ⟨hresult', rfl, hremarks.symm⟩
  exact ⟨_, hstate, drain_of_reads hrow'⟩

/-- The lexers have the same keywords, and cut the same pieces off every text but where the
first of them meets such a fault. -/
structure AgreesBut (bad : Fault → Prop) (x y : Lexer) : Prop where
  keywords : y.settings.keywords = x.settings.keywords
  piece : ∀ t, y.piece t = x.piece t ∨ ∃ f spent, bad f ∧ x.piece t = .fault f spent

namespace AgreesBut

variable {bad : Fault → Prop}

theorem piece_eq (h : AgreesBut bad x y) {t : List Char} {p : Piece} (hp : x.piece t = p)
    (hgood : ∀ f spent, p = .fault f spent → ¬ bad f) : y.piece t = p := by
  rcases h.piece t with heq | ⟨f, spent, hbad, hf⟩
  · exact heq.trans hp
  · exact absurd hbad (hgood f spent (hp.symm.trans hf))

/-- A read that meets no such fault is the same for both. -/
theorem read (h : AgreesBut bad x y) (hgood : ∀ f, (x.read c).result = .failure f → ¬ bad f.fault) :
    y.read c = x.read c := by
  induction c using readInduction x with
  | blank c b hp ih =>
    rw [read_of_blank hp] at hgood ⊢
    rw [read_of_blank (h.piece_eq hp (by simp)), ih hgood]
  | comment c b hp ih =>
    rw [read_of_comment hp] at hgood ⊢
    rw [read_of_comment (h.piece_eq hp (by simp)), ih hgood]
  | lexeme c l hp =>
    rw [read_of_lexeme hp, read_of_lexeme (h.piece_eq hp (by simp)), h.keywords]
  | fault c f spent hp =>
    rw [read_of_fault hp] at hgood
    have hpiece := h.piece_eq hp fun g _ hg => by
      obtain ⟨rfl, -⟩ := Piece.fault.inj hg
      exact hgood _ rfl
    rw [read_of_fault hp, read_of_fault hpiece]
  | finish c hp => rw [read_of_finish hp, read_of_finish (h.piece_eq hp (by simp))]

theorem reads (h : AgreesBut bad x y) {n : Nat}
    (hgood : ∀ f, .failure f ∈ (x.reads c n).result → ¬ bad f.fault) :
    y.reads c n = x.reads c n := by
  induction n generalizing c with
  | zero => rfl
  | succ n ih =>
    have hfirst := h.read fun f hf => hgood f (hf ▸ List.mem_cons_self)
    have hlater := ih fun f hf => hgood f (List.mem_cons_of_mem _ hf)
    rw [Lexer.reads, Lexer.reads, hfirst, hlater]

/-- A drain that does not end in such a fault is the same for both. -/
theorem drain (h : AgreesBut bad x y)
    (hgood : ∀ f, (Scanner.mk x c none).drain.result.2 = some f → ¬ bad f.fault) :
    (Scanner.mk y c none).drain =
      { (Scanner.mk x c none).drain with
        state := .mk y (Scanner.mk x c none).drain.state.cursor none } := by
  let tokens := (Scanner.mk x c none).drain.result.1
  have hrow := x.reads_drain c
  have hends : ∀ f, .failure f ∈ (x.reads c (tokens.length + 1)).result → ¬ bad f.fault := by
    intro f hf
    rw [hrow] at hf
    rcases List.mem_append.1 hf with hf | hf
    · obtain ⟨t, -, ht⟩ := List.mem_map.1 hf
      cases ht
    · cases he : (Scanner.mk x c none).drain.result.2 with
      | none => simp [he, Outcome.ending] at hf
      | some g =>
        obtain rfl : f = g := by simpa [he, Outcome.ending] using hf
        exact hgood f he
  exact drain_of_reads ((h.reads hends).trans hrow)

end AgreesBut

end Lexer

/-- Reads that correspond make texts that tokenize alike. -/
theorem tokenize_alike {s t : Settings} {file? file?' : Option String} {source source' : List Char}
    {related : Cursor → Cursor → Prop} {f : Token → Token} {g : Failure → Failure}
    {r : Remark → Remark} (hread : ∀ c d, related c d →
      Reply.Alike related ((s.lexer.read c).map (.map f g) r) (t.lexer.read d))
    (h : related (Scanner.start s.lexer file? source).cursor
      (Scanner.start t.lexer file?' source').cursor) :
    tokenize t file?' source' = (((tokenize s file? source).1.map (List.map f)).mapError g,
      (tokenize s file? source).2.map r) := by
  obtain ⟨last, -, hdrain⟩ := Lexer.drain_alike hread h
  have hresult : (Scanner.start t.lexer file?' source').drain.result =
      ((Scanner.start s.lexer file? source).drain.result.1.map f,
        (Scanner.start s.lexer file? source).drain.result.2.map g) := congrArg Reply.result hdrain
  refine Prod.ext ?_ ?_
  · rw [tokenize_fst, tokenize_fst, hresult]
    cases (Scanner.start s.lexer file? source).drain.result.2 <;> rfl
  · rw [tokenize_snd, tokenize_snd]
    exact congrArg Reply.remarks hdrain

end BeatNotation
