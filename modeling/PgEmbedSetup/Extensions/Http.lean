import Mathlib.Algebra.Order.BigOperators.Group.List
import PgEmbedSetup.Extensions.Pipeline

set_option autoImplicit false

/-!
`src/extensions/http.rs` and the hashing writer of `digest.rs`: one GET with its redirects and
attempts, and the body as it is written down. The pipeline sees no more of it than the bytes.
-/

namespace PgEmbedSetup.Extensions.Http
open Library

/-! ### What the other side answers -/

/-- A read of the body. An empty one is its end. -/
inductive BodyRead where
  | data (bytes : Bytes)
  | fails (error : Text)
  deriving DecidableEq

/-- `location` is where a redirect points, when it can be parsed. -/
structure Response where
  status : Nat
  location : Option Url
  body : List BodyRead
  deriving DecidableEq

inductive Answer where
  | refused (error : Text)
  | response (r : Response)
  deriving DecidableEq

/-- What a request gets, by the attempt and by how many redirects came before it. -/
structure Net where
  answer : Nat → Nat → Url → Answer

inductive WriteAnswer where
  | wrote (count : Nat)
  | interrupted
  | fails (error : Text)
  deriving DecidableEq

/-! ### The hashing writer -/

/-- `hashed` is what went into the hasher. -/
structure HashingWriter where
  inner : Bytes
  hashed : Bytes
  written : Nat
  deriving DecidableEq

def HashingWriter.new : HashingWriter := ⟨[],[],0⟩

/-- The inner writer takes the first `count` bytes, and no more than there are. -/
def HashingWriter.write (w : HashingWriter) (buf : Bytes) (count : Nat) : HashingWriter :=
  let count := min count buf.length
  ⟨w.inner ++ buf.take count,w.hashed ++ buf.take count,w.written+count⟩

/-- `write_all`, which asks until everything is written; without a further answer it is. -/
def writeAll : List WriteAnswer → Bytes → HashingWriter →
    Except Text Unit × List WriteAnswer × HashingWriter
  | answers, [], w => (.ok (),answers,w)
  | [], buf, w => (.ok (),[],w.write buf buf.length)
  | .interrupted :: rest, buf, w => writeAll rest buf w
  | .fails e :: rest, _, w => (.error e,rest,w)
  | .wrote count :: rest, buf, w =>
    if count = 0 then (.error "failed to write whole buffer".toList,rest,w)
    else writeAll rest (buf.drop (min count buf.length)) (w.write buf count)

/-- `io::copy` from at most `limit` bytes of the body. -/
def copyBody : Nat → Nat → List WriteAnswer → List BodyRead → HashingWriter →
    Except Text Nat × HashingWriter
  | _, received, _, [], w => (.ok received,w)
  | limit, received, _, .fails e :: _, w =>
    if limit = 0 then (.ok received,w) else (.error e,w)
  | limit, received, answers, .data bytes :: rest, w =>
    let part := bytes.take limit
    if part.isEmpty then (.ok received,w)
    else
      match writeAll answers part w with
      | (.error e,_,w) => (.error e,w)
      | (.ok (),answers,w) => copyBody (limit-part.length) (received+part.length) answers rest w

/-! ### The request -/

inductive Failure where
  | transient (error : Text)
  | permanent (error : Text)
  deriving DecidableEq

def isSuccess (status : Nat) : Bool := 200 ≤ status && status < 300

def isServerError (status : Nat) : Bool := 500 ≤ status && status < 600

def isRedirection (status : Nat) : Bool := [301,302,303,307,308].contains status

def serverReturned (status : Nat) : Text := "server returned ".toList ++ decimal status

def classify (r : Response) : Except Failure Response :=
  if isSuccess r.status then .ok r
  else if isServerError r.status || r.status = 429 then .error (.transient (serverReturned r.status))
  else .error (.permanent (serverReturned r.status))

def httpAttempts : Nat := 3

/-- In milliseconds. -/
def httpBackoff : Nat := 200

section Fetch
variable {δ : Type} (host : Host δ) (net : Net)

/-- The client's redirects under the policy of `build_client`; `previous` counts the requests
made, and the policy refuses another one after ten. -/
def follow (attempt : Nat) : Nat → Nat → Url → Except Failure Response × List Url
  | left, previous, url =>
    match net.answer attempt previous url with
    | .refused e => (.error (.transient e),[url])
    | .response r =>
      if isRedirection r.status then
        match r.location, left with
        | none, _ => (classify r,[url])
        | some _, 0 => (.error (.permanent "too many redirects".toList),[url])
        | some next, left+1 =>
          if isPermitted host next then
            let (result,requests) := follow attempt left (previous+1) next
            (result,url :: requests)
          else
            (.error (.permanent "redirect to a URL that is not permitted".toList),[url])
      else (classify r,[url])

def send (attempt : Nat) (url : Url) : Except Failure Response × List Url :=
  follow host net attempt 9 0 url

structure Fetched where
  result : Except Text Response
  attempts : Nat
  requests : List Url
  delays : List Nat

def givingUp (attempt : Nat) : Text := "giving up after ".toList ++ decimal attempt ++ " attempts".toList

/-- The loop of `fetch_with_retry`, of which at most `left` further rounds are due. -/
def fetchFrom (url : Url) : Nat → Nat → Fetched
  | left, attempt =>
    match send host net attempt url with
    | (.ok r,requests) => ⟨.ok r,attempt,requests,[]⟩
    | (.error (.permanent e),requests) => ⟨.error e,attempt,requests,[]⟩
    | (.error (.transient _),requests) =>
      match left with
      | 0 => ⟨.error (givingUp attempt),attempt,requests,[]⟩
      | left+1 =>
        let rest := fetchFrom url left (attempt+1)
        { rest with
          requests := requests ++ rest.requests
          delays := httpBackoff*2^(attempt-1) :: rest.delays }

def fetchWithRetry (url : Url) : Fetched := fetchFrom host net url (httpAttempts-1) 1

inductive GetError where
  | notPermitted
  | fetch (error : Text)
  | body (error : Text)
  deriving DecidableEq

structure Got where
  result : Except GetError Nat
  attempts : Nat
  requests : List Url
  delays : List Nat
  writer : HashingWriter

def httpGet (url : Text) (cap : Nat) (answers : List WriteAnswer) : Got :=
  match (host.parseUrl url).filter (isPermitted host) with
  | none => ⟨.error .notPermitted,0,[],[],.new⟩
  | some parsed =>
    let f := fetchWithRetry host net parsed
    match f.result with
    | .error e => ⟨.error (.fetch e),f.attempts,f.requests,f.delays,.new⟩
    | .ok response =>
      match copyBody (cap+1) 0 answers response.body .new with
      | (.error e,w) => ⟨.error (.body e),f.attempts,f.requests,f.delays,w⟩
      | (.ok received,w) => ⟨.ok received,f.attempts,f.requests,f.delays,w⟩

end Fetch

/-! ### What is written -/

/-- The body as far as it can be read. -/
def bodyBytes : List BodyRead → Bytes
  | [] | .fails _ :: _ => []
  | .data bytes :: rest => if bytes.isEmpty then [] else bytes ++ bodyBytes rest

/-- The digest is that of the bytes that went through, and so is the count. -/
structure HashingWriter.Consistent (w : HashingWriter) : Prop where
  hashed : w.hashed = w.inner
  written : w.written = w.inner.length

theorem HashingWriter.Consistent.write {w : HashingWriter} (h : w.Consistent) (buf : Bytes)
    (count : Nat) : (w.write buf count).Consistent ∧
      (w.write buf count).inner = w.inner ++ buf.take (min count buf.length) := by
  refine ⟨⟨?_,?_⟩,rfl⟩
  · simp only [HashingWriter.write,h.hashed]
  · simp only [HashingWriter.write,h.written,List.length_append,List.length_take]
    omega

theorem writeAll_consistent (answers : List WriteAnswer) (buf : Bytes) {w : HashingWriter}
    (h : w.Consistent) : (writeAll answers buf w).2.2.Consistent ∧
      ∃ done, done <+: buf ∧ (writeAll answers buf w).2.2.inner = w.inner ++ done ∧
        ((writeAll answers buf w).1 = .ok () → done = buf) := by
  fun_induction writeAll answers buf w with
  | case1 answers w => exact ⟨h,[],List.nil_prefix,by simp,fun _ => rfl⟩
  | case2 buf w hne =>
    obtain ⟨hwrite,hinner⟩ := h.write buf buf.length
    exact ⟨hwrite,buf,List.prefix_rfl,by simpa using hinner,fun _ => rfl⟩
  | case3 rest buf w hne ih => exact ih h
  | case4 e rest buf w hne => exact ⟨h,[],List.nil_prefix,by simp,fun h => (nomatch h)⟩
  | case5 rest buf w hne => exact ⟨h,[],List.nil_prefix,by simp,fun h => (nomatch h)⟩
  | case6 count rest buf w hne hcount ih =>
    obtain ⟨hwrite,hinner⟩ := h.write buf count
    obtain ⟨hconsistent,done,⟨left,hleft⟩,hdone,hall⟩ := ih hwrite
    refine ⟨hconsistent,buf.take (min count buf.length) ++ done,⟨left,?_⟩,?_,fun hok => ?_⟩
    · rw [List.append_assoc,hleft,List.take_append_drop]
    · rw [hdone,hinner,List.append_assoc]
    · rw [hall hok,List.take_append_drop]

theorem copyBody_consistent (limit received : Nat) (answers : List WriteAnswer)
    (reads : List BodyRead) {w : HashingWriter} (h : w.Consistent) :
    (copyBody limit received answers reads w).2.Consistent ∧
      ∃ done, done <+: (bodyBytes reads).take limit ∧
        (copyBody limit received answers reads w).2.inner = w.inner ++ done ∧
        ∀ n, (copyBody limit received answers reads w).1 = .ok n →
          done = (bodyBytes reads).take limit ∧ n = received+done.length := by
  induction reads generalizing limit received answers w with
  | nil =>
    refine ⟨h,[],List.nil_prefix,(List.append_nil _).symm,fun n hn => ?_⟩
    cases hn
    exact ⟨by simp [bodyBytes],rfl⟩
  | cons read rest ih =>
    cases read with
    | fails e =>
      rw [copyBody]
      split
      · refine ⟨h,[],List.nil_prefix,(List.append_nil _).symm,fun n hn => ?_⟩
        cases hn
        exact ⟨by simp [bodyBytes],rfl⟩
      · exact ⟨h,[],List.nil_prefix,(List.append_nil _).symm,fun n hn => (nomatch hn)⟩
    | data bytes =>
      rw [copyBody]
      split
      · next hempty =>
        -- the body has ended, or the limit is reached
        have hnone : (bodyBytes (.data bytes :: rest)).take limit = [] := by
          rcases List.take_eq_nil_iff.mp (List.isEmpty_iff.mp hempty) with hlimit | hbytes
          · rw [hlimit,List.take_zero]
          · simp [bodyBytes,hbytes]
        refine ⟨h,[],List.nil_prefix,(List.append_nil _).symm,fun n hn => ?_⟩
        cases hn
        exact ⟨hnone.symm,rfl⟩
      · next hsome =>
        have hbytes : bytes ≠ [] := by
          rintro rfl
          simp at hsome
        have hbody : (bodyBytes (.data bytes :: rest)).take limit =
            bytes.take limit ++ (bodyBytes rest).take (limit-bytes.length) := by
          rw [bodyBytes,if_neg (by simpa using hbytes),List.take_append]
        have hleft : limit-(bytes.take limit).length = limit-bytes.length := by
          rw [List.length_take]
          omega
        obtain ⟨hwritten,done,hlead,hinner,hall⟩ :=
          writeAll_consistent answers (bytes.take limit) h
        rw [hbody]
        generalize hresult : writeAll answers (bytes.take limit) w = result at hwritten hinner hall ⊢
        obtain ⟨outcome,answers',w'⟩ := result
        cases outcome with
        | error e =>
          exact ⟨hwritten,done,hlead.trans (List.prefix_append _ _),hinner,
            fun n hn => (nomatch hn)⟩
        | ok u =>
          obtain ⟨hconsistent,more,hmore,hrest,hdone⟩ := ih (limit-(bytes.take limit).length)
            (received+(bytes.take limit).length) answers' hwritten
          rw [hleft] at hmore
          dsimp only at hinner
          refine ⟨hconsistent,bytes.take limit ++ more,?_,?_,fun n hn => ?_⟩
          · exact (List.prefix_append_right_inj _).mpr hmore
          · rw [hrest,hinner,hall rfl,List.append_assoc]
          · obtain ⟨hsame,hcount⟩ := hdone n hn
            rw [hleft] at hsame
            rw [hsame,hcount,hsame]
            refine ⟨rfl,?_⟩
            rw [List.length_append]
            omega

/-! ### Where requests go -/

section Requests
variable {δ : Type} (host : Host δ) (net : Net)

theorem filter_permitted (url : Text) :
    (host.parseUrl url).filter (isPermitted host) = none ↔ isPermittedUrl host url = false := by
  rw [isPermittedUrl]
  cases host.parseUrl url with
  | none => simp
  | some parsed => simp [Option.filter]

structure Chain (count : Nat) (requests : List Url) : Prop where
  permitted : ∀ url ∈ requests, isPermitted host url
  asked : requests ≠ []
  length : requests.length ≤ count

theorem Chain.single {url : Url} (h : isPermitted host url) (left : Nat) :
    Chain host (left+1) [url] where
  permitted := fun u hu => by rwa [List.mem_singleton.mp hu]
  asked := List.cons_ne_nil _ _
  length := by simp

theorem Chain.cons {count : Nat} {url : Url} {requests : List Url}
    (h : Chain host count requests) (hurl : isPermitted host url) :
    Chain host (count+1) (url :: requests) where
  permitted := fun u hu => by
    rcases List.mem_cons.mp hu with rfl | hu
    · exact hurl
    · exact h.permitted u hu
  asked := List.cons_ne_nil _ _
  length := by simpa using h.length

theorem follow_chain (attempt : Nat) (left previous : Nat) {url : Url}
    (h : isPermitted host url) :
    Chain host (left+1) (follow host net attempt left previous url).2 := by
  fun_induction follow host net attempt left previous url with
  | case4 previous url r hanswer hredirect next hlocation left hnext result requests heq ih =>
    have htarget := ih hnext
    rw [heq] at htarget
    exact htarget.cons host h
  | _ => exact Chain.single host h _

theorem send_chain (attempt : Nat) {url : Url} (h : isPermitted host url) :
    Chain host 10 (send host net attempt url).2 :=
  follow_chain host net attempt 9 0 h

/-- Why the attempt `last` ended a loop that may go on to `most`. -/
def Stopped (url : Url) (most last : Nat) (result : Except Text Response) : Prop :=
  (∃ r, result = .ok r ∧ (send host net last url).1 = .ok r) ∨
    (∃ e, result = .error e ∧ (send host net last url).1 = .error (.permanent e)) ∨
    ∃ e, result = .error (givingUp last) ∧ last = most ∧
      (send host net last url).1 = .error (.transient e)

/-- What the loop did, begun at the attempt `first` and allowed to go on to `most`. -/
structure Rounds (url : Url) (first most : Nat) (f : Fetched) : Prop where
  begun : first ≤ f.attempts
  bounded : f.attempts ≤ most
  retried : ∀ a, first ≤ a → a < f.attempts → ∃ e, (send host net a url).1 = .error (.transient e)
  stopped : Stopped host net url most f.attempts f.result
  requests : f.requests =
    (List.range' first (f.attempts+1-first)).flatMap fun a => (send host net a url).2
  delays : f.delays = (List.range' first (f.attempts-first)).map fun a => httpBackoff*2^(a-1)

theorem Rounds.last {url : Url} {most attempt : Nat} {result : Except Text Response}
    (hmost : attempt ≤ most) (h : Stopped host net url most attempt result) :
    Rounds host net url attempt most ⟨result,attempt,(send host net attempt url).2,[]⟩ where
  begun := le_rfl
  bounded := hmost
  retried := fun _ h₁ h₂ => absurd h₂ (Nat.not_lt.mpr h₁)
  stopped := h
  requests := by simp
  delays := by simp

theorem Rounds.again {url : Url} {most attempt : Nat} {f : Fetched} {e : Text}
    (h : Rounds host net url (attempt+1) most f)
    (hsend : (send host net attempt url).1 = .error (.transient e)) :
    Rounds host net url attempt most
      { f with
        requests := (send host net attempt url).2 ++ f.requests
        delays := httpBackoff*2^(attempt-1) :: f.delays } where
  begun := (Nat.le_succ _).trans h.begun
  bounded := h.bounded
  retried := fun a h₁ h₂ => by
    rcases Nat.eq_or_lt_of_le h₁ with rfl | hlt
    · exact ⟨e,hsend⟩
    · exact h.retried a hlt h₂
  stopped := h.stopped
  requests := by
    have hcount : f.attempts+1-attempt = (f.attempts+1-(attempt+1))+1 := by
      have := h.begun
      omega
    rw [hcount,List.range'_succ,List.flatMap_cons,h.requests]
  delays := by
    have hcount : f.attempts-attempt = (f.attempts-(attempt+1))+1 := by
      have := h.begun
      omega
    rw [hcount,List.range'_succ,List.map_cons,h.delays]

theorem fetchFrom_rounds (url : Url) (left attempt : Nat) :
    Rounds host net url attempt (attempt+left) (fetchFrom host net url left attempt) := by
  fun_induction fetchFrom host net url left attempt with
  | case1 left attempt r requests hsend =>
    have h : Stopped host net url (attempt+left) attempt (.ok r) := .inl ⟨r,rfl,by rw [hsend]⟩
    simpa only [hsend] using Rounds.last host net (Nat.le_add_right attempt left) h
  | case2 left attempt e requests hsend =>
    have h : Stopped host net url (attempt+left) attempt (.error e) :=
      .inr (.inl ⟨e,rfl,by rw [hsend]⟩)
    simpa only [hsend] using Rounds.last host net (Nat.le_add_right attempt left) h
  | case3 attempt e requests hsend =>
    have h : Stopped host net url (attempt+0) attempt (.error (givingUp attempt)) :=
      .inr (.inr ⟨e,rfl,rfl,by rw [hsend]⟩)
    simpa only [hsend] using Rounds.last host net (Nat.le_add_right attempt 0) h
  | case4 attempt e requests hsend left rest ih =>
    have hsend' : (send host net attempt url).1 = .error (.transient e) := by rw [hsend]
    have hrest : Rounds host net url (attempt+1) (attempt+(left+1)) rest := by
      have hmost : attempt+1+left = attempt+(left+1) := by omega
      rwa [hmost] at ih
    simpa only [hsend] using hrest.again host net hsend'

theorem fetchWithRetry_rounds (url : Url) :
    Rounds host net url 1 httpAttempts (fetchWithRetry host net url) :=
  fetchFrom_rounds host net url (httpAttempts-1) 1

theorem Rounds.permitted {url : Url} {first most : Nat} {f : Fetched}
    (h : Rounds host net url first most f) (hurl : isPermitted host url) :
    ∀ u ∈ f.requests, isPermitted host u := by
  intro u hu
  rw [h.requests] at hu
  obtain ⟨a,_,hu⟩ := List.mem_flatMap.mp hu
  exact (send_chain host net a hurl).permitted u hu

theorem Rounds.length_le {url : Url} {first most : Nat} {f : Fetched}
    (h : Rounds host net url first most f) (hurl : isPermitted host url) :
    f.requests.length ≤ 10*(f.attempts+1-first) := by
  rw [h.requests,List.length_flatMap]
  have hle := List.sum_le_card_nsmul
    ((List.range' first (f.attempts+1-first)).map fun a => (send host net a url).2.length) 10
    (fun n hn => by
      obtain ⟨a,_,rfl⟩ := List.mem_map.mp hn
      exact (send_chain host net a hurl).length)
  simpa [Nat.mul_comm] using hle

theorem Rounds.pauses {url : Url} {f : Fetched} (h : Rounds host net url 1 httpAttempts f) :
    f.delays = [200,400].take (f.attempts-1) := by
  have hbegun := h.begun
  have hbounded := h.bounded
  rw [h.delays]
  generalize f.attempts = n at hbegun hbounded ⊢
  obtain rfl | rfl | rfl : n = 1 ∨ n = 2 ∨ n = 3 := by
    simp only [httpAttempts] at hbounded
    omega
  · rfl
  · rfl
  · rfl

/-- All of a body, unless a read of it fails. -/
def wholeBody : List BodyRead → Option Bytes
  | [] => some []
  | .fails _ :: _ => none
  | .data bytes :: rest => if bytes.isEmpty then some [] else (wholeBody rest).map (bytes ++ ·)

theorem copyBody_whole {limit received n : Nat} {answers : List WriteAnswer}
    {reads : List BodyRead} {w : HashingWriter}
    (hok : (copyBody limit received answers reads w).1 = .ok n) (hn : n < received+limit) :
    wholeBody reads = some (bodyBytes reads) := by
  fun_induction copyBody limit received answers reads w with
  | case1 => rfl
  | case2 =>
    cases hok
    exact absurd hn (by simp)
  | case3 => exact (nomatch hok)
  | case4 limit received answers bytes rest w part hempty =>
    cases hok
    rcases List.take_eq_nil_iff.mp (List.isEmpty_iff.mp hempty) with rfl | rfl
    · exact absurd hn (by simp)
    · rfl
  | case5 => exact (nomatch hok)
  | case6 limit received answers bytes rest w part hsome answers' w' hwrite ih =>
    have hbytes : ¬bytes.isEmpty := by
      intro hempty
      simp [part,List.isEmpty_iff.mp hempty] at hsome
    have hlength : part.length ≤ limit := by simp [part]
    -- what was read is short of the limit, so no byte of this chunk was cut off
    rw [wholeBody,bodyBytes,if_neg hbytes,if_neg hbytes,ih hok (by omega),Option.map_some]

/-- What a GET with the limit `cap` amounts to. -/
structure Accounted (url : Text) (cap : Nat) (g : Got) : Prop where
  permitted : ∀ u ∈ g.requests, isPermitted host u
  refused : g.requests = [] ↔ isPermittedUrl host url = false
  attempts : g.attempts ≤ httpAttempts
  bounded : g.requests.length ≤ 10*g.attempts
  delays : g.delays = [200,400].take (g.attempts-1)
  writer : g.writer.Consistent
  received : ∀ n, g.result = .ok n → n = g.writer.inner.length ∧
    ∃ parsed r, host.parseUrl url = some parsed ∧ (send host net g.attempts parsed).1 = .ok r ∧
      g.writer.inner = (bodyBytes r.body).take (cap+1) ∧
      (n ≤ cap → wholeBody r.body = some g.writer.inner)

theorem Rounds.asked {url : Url} {first most : Nat} {f : Fetched}
    (h : Rounds host net url first most f) (hurl : isPermitted host url) : f.requests ≠ [] := by
  have hcount : f.attempts+1-first = (f.attempts-first)+1 := by
    have := h.begun
    omega
  rw [h.requests,hcount,List.range'_succ,List.flatMap_cons]
  exact fun hnil => (send_chain host net first hurl).asked (List.append_eq_nil_iff.mp hnil).1

/-- Whatever becomes of the body, the requests are those of the loop. -/
theorem Rounds.accounted {url : Text} {cap : Nat} {parsed : Url} {f : Fetched}
    {result : Except GetError Nat} {w : HashingWriter}
    (h : Rounds host net parsed 1 httpAttempts f) (hurl : host.parseUrl url = some parsed)
    (hpermitted : isPermitted host parsed) (hw : w.Consistent)
    (hreceived : ∀ n, result = .ok n → n = w.inner.length ∧ ∃ r, f.result = .ok r ∧
      w.inner = (bodyBytes r.body).take (cap+1) ∧
      (n ≤ cap → wholeBody r.body = some w.inner)) :
    Accounted host net url cap ⟨result,f.attempts,f.requests,f.delays,w⟩ where
  permitted := h.permitted host net hpermitted
  refused := by
    refine ⟨fun hnil => absurd hnil (h.asked host net hpermitted),fun hno => ?_⟩
    rw [isPermittedUrl,hurl,Option.any_some,hpermitted] at hno
    exact (nomatch hno)
  attempts := h.bounded
  bounded := by simpa using h.length_le host net hpermitted
  delays := h.pauses host net
  writer := hw
  received := fun n hn => by
    obtain ⟨hlength,r,hresult,hbody⟩ := hreceived n hn
    refine ⟨hlength,parsed,r,hurl,?_,hbody⟩
    obtain ⟨r',hr,hsend⟩ | ⟨e,he,_⟩ | ⟨e,he,_⟩ := h.stopped
    · rw [hr] at hresult
      cases hresult
      exact hsend
    · rw [he] at hresult
      exact (nomatch hresult)
    · rw [he] at hresult
      exact (nomatch hresult)

def Got.yields (g : Got) : Option Bytes :=
  match g.result with
  | .ok _ => some g.writer.inner
  | .error _ => none

/-- The body behind the URL, for a GET that is served in full or up to its limit. -/
def served (url : Text) (cap : Nat) (answers : List WriteAnswer) : Option Bytes :=
  match (host.parseUrl url).filter (isPermitted host) with
  | none => none
  | some parsed =>
    match (fetchWithRetry host net parsed).result with
    | .error _ => none
    | .ok r =>
      match (copyBody (cap+1) 0 answers r.body .new).1 with
      | .ok _ => some (bodyBytes r.body)
      | .error _ => none

theorem httpGet_yields (url : Text) (cap : Nat) (answers : List WriteAnswer) :
    (httpGet host net url cap answers).yields =
      (served host net url cap answers).map fun bytes => bytes.take (cap+1) := by
  rw [httpGet,served]
  split
  · rfl
  · next parsed hparsed =>
    dsimp only
    split
    · rfl
    · next r hresult =>
      obtain ⟨_,done,_,hinner,hall⟩ := copyBody_consistent (cap+1) 0 answers r.body
        (show HashingWriter.new.Consistent from ⟨rfl,rfl⟩)
      split
      · next e w hcopy =>
        rw [hcopy]
        rfl
      · next received w hcopy =>
        have hdone := (hall received (by rw [hcopy])).1
        rw [hcopy,hdone] at hinner
        rw [hcopy]
        exact congrArg some hinner

theorem httpGet_refines [DecidableEq δ] (s : Surroundings δ) (url : Text) (cap : Nat)
    (answers : List WriteAnswer) (w : World δ)
    (hserved : s.download w.disk.clock url = served s.host net url cap answers) :
    Extensions.httpGet s url cap w = .done (httpGet s.host net url cap answers).yields
      { w with disk := { w.disk with clock := w.disk.clock+1 } } := by
  rw [httpGet_yields,Extensions.httpGet]
  have hbody : (if isPermittedUrl s.host url then s.download w.disk.clock url else none) =
      served s.host net url cap answers := by
    rw [hserved]
    split
    · rfl
    · next hno =>
      rw [served,(filter_permitted s.host url).mpr (Bool.eq_false_iff.mpr hno)]
  rw [hbody]

end Requests

end PgEmbedSetup.Extensions.Http
