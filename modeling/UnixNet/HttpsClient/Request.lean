import UnixNet.EventWb.Connection
import UnixNet.HttpsClient.HostnameValidation
import UnixNet.Lib.Numeral

/-!
# What the client requests

`main` of `https-client.c` reads its options, takes the URL apart and makes one request. A value on
the command line is looked at again as an option of its own: `-data -ignore-cert` also turns the
check of the certificate off. `parse_options_iff` says which command lines are understood and what
each option stands for, `main_iff` what is requested for them. Memory is assumed to suffice for the
headers and the file.
-/

namespace UnixNet.HttpsClient

open NetLib

/-- What `evhttp_uri_parse` finds in a URL. -/
structure HttpUri where
  scheme : Option Bytes
  host : Option Bytes
  port : Option Nat
  path : Bytes
  query : Option Bytes
  hostNul : ∀ h ∈ host, 0 ∉ h
  pathNul : 0 ∉ path
  queryNul : ∀ q ∈ query, 0 ∉ q

/-- A request and its connection. -/
@[ext]
structure Request where
  host : Bytes
  port : Nat
  tls : Bool
  ignoreCert : Bool
  retries : Option Int
  timeout : Option Int
  post : Bool
  uri : Bytes
  headers : List (Bytes × Bytes)
  body : Bytes

/-- What is around the program: how URLs are parsed, and what can be read of a file that can be
opened. The others say of each call that may fail whether it succeeds. `certificates` are those of a
file or of the default places, and the argument of `bufferevent` says whether it has TLS. -/
structure System where
  uriParse : Bytes → Option HttpUri
  randPoll : Bool
  sslCtxNew : Bool
  certificates : Option Bytes → Bool
  eventBaseNew : Bool
  sslNew : Bool
  bufferevent : Bool → Bool
  connection : Bytes → Nat → Bool
  requestNew : Bool
  fopen : Bytes → Option Bytes
  makeRequest : Request → Bool

/-- The variables that the options set. -/
@[ext]
structure Options where
  url : Option Bytes
  crt : Option Bytes
  ignoreCert : Bool
  dataFile : Option Bytes
  retries : Int
  timeout : Int

/-- Their values before the loop. -/
def Options.initial : Options :=
  ⟨none, none, false, none, 0, -1⟩

/-- The options that are followed by a value. -/
inductive ValueOption where
  | url
  | crt
  | data
  | retries
  | timeout
  deriving DecidableEq

/-- What an option is compared with. -/
def ValueOption.text : ValueOption → Bytes
  | .url => ascii "-url"
  | .crt => ascii "-crt"
  | .data => ascii "-data"
  | .retries => ascii "-retries"
  | .timeout => ascii "-timeout"

/-- `"-ignore-cert"` -/
def ignoreCertText : Bytes := ascii "-ignore-cert"

/-- `"-help"` -/
def helpText : Bytes := ascii "-help"

/-- `atoi(s)`, which is `(int) strtol(s, NULL, 10)`: a number that is no `long` is cut to the bounds
of one, and `int` keeps the low 32 bits. -/
def atoi (s : Bytes) : Int :=
  toInt (max (-2 ^ 63) (min (2 ^ 63 - 1) ((scanInt UInt8.toNat s).elim 0 Prod.fst)))

example : atoi (ascii "3000000000") = -1294967296 := by decide

/-- The assignment of an option. -/
def Options.assign (o : Options) (value : Bytes) : ValueOption → Options
  | .url => { o with url := some value }
  | .crt => { o with crt := some value }
  | .data => { o with dataFile := some value }
  | .retries => { o with retries := atoi value }
  | .timeout => { o with timeout := atoi value }

/-- The option with a value that an argument is. -/
def valueOption (arg : Bytes) : Option ValueOption :=
  [.url, .crt, .data, .retries, .timeout].find? fun v => v.text = arg

/-- The loop over the arguments behind `argv[0]`. -/
def parseOptions (o : Options) : List Bytes → Option Options
  | [] => some o
  | arg :: rest =>
      match valueOption arg with
      -- i stays where it is, so that the value is the next argument
      | some v => rest.head?.bind fun value => parseOptions (o.assign value v) rest
      | none =>
          if arg = ignoreCertText then parseOptions { o with ignoreCert := true } rest
          else if arg = helpText then none
          else parseOptions o rest

/-- The variable `path`. -/
def requestPath (uri : HttpUri) : Bytes :=
  if uri.path.length = 0 then ascii "/" else uri.path

/-- What is printed for the path and the query of a URL. -/
def requestText (uri : HttpUri) : Bytes :=
  match uri.query with
  | none => requestPath uri
  | some query => requestPath uri ++ ascii "?" ++ query

/-- The C string in `uri`, an array of 256 bytes: at most 255 of them are printed to, and the last
one is set to NUL. -/
def requestUri (uri : HttpUri) : Bytes :=
  cstr ((snprintf (zeros 255) (requestText uri)).2 ++ [0])

/-- The loop that reads the file: `left` is not read yet. -/
def addFile (outputBuffer : Bytes) (bytes : Nat) (left : Bytes) : Bytes × Nat :=
  let buf := left.take 1024
  if 0 < buf.length then addFile (outputBuffer ++ buf) (bytes + buf.length) (left.drop 1024)
  else (outputBuffer, bytes)
termination_by left.length
decreasing_by
  rename_i hread
  rw [List.length_take] at hread
  rw [List.length_drop]
  omega

/-- The request and its connection before the file is read. -/
def plainRequest (o : Options) (httpUri : HttpUri) (scheme host : Bytes) : Request :=
  let http := EventWb.strcasecmp scheme (ascii "http")
  { host
    port := httpUri.port.getD (if http then 80 else 443)
    tls := !http
    ignoreCert := o.ignoreCert
    retries := if 0 < o.retries then some o.retries else none
    timeout := if 0 ≤ o.timeout then some o.timeout else none
    post := false
    uri := requestUri httpUri
    headers := [(ascii "Host", host), (ascii "Connection", ascii "close")]
    body := [] }

/-- The block for a data file. -/
def addData (sys : System) (dataFile : Option Bytes) (request : Request) : Option Request :=
  match dataFile with
  | none => some request
  | some name => (sys.fopen name).map fun content =>
      let (output, bytes) := addFile [] 0 content
      { request with
        post := true
        headers := request.headers ++ [(ascii "Content-Length", decimal bytes)]
        body := output }

/-- `main`, up to the request it makes. -/
def main (sys : System) (args : List Bytes) : Option Request := do
  let o ← parseOptions .initial args
  let url ← o.url
  let httpUri ← sys.uriParse url
  let scheme ← httpUri.scheme
  guard (EventWb.strcasecmp scheme (ascii "https") || EventWb.strcasecmp scheme (ascii "http"))
  let host ← httpUri.host
  let request := plainRequest o httpUri scheme host
  guard sys.randPoll
  guard sys.sslCtxNew
  guard (sys.certificates o.crt)
  guard sys.eventBaseNew
  guard sys.sslNew
  guard (sys.bufferevent request.tls)
  guard (sys.connection request.host request.port)
  guard sys.requestNew
  let request ← addData sys o.dataFile request
  guard (sys.makeRequest request)
  some request

/-! ## The command line -/

/-- A command line that is understood: it does not ask for help, and there is a value behind each
option that needs one. -/
structure Understood (args : List Bytes) : Prop where
  noHelp : helpText ∉ args
  values : ∀ (v : ValueOption) (before after : List Bytes), args = before ++ v.text :: after →
    ∃ value, after.head? = some value

/-- The value behind the last occurrence of an option. -/
def Given (v : ValueOption) (args : List Bytes) (value : Bytes) : Prop :=
  ∃ before after, args = before ++ v.text :: value :: after ∧ v.text ∉ value :: after

/-- The variable of an option is set to what the value stands for. -/
def Options.Shows (o : Options) (value : Bytes) : ValueOption → Prop
  | .url => o.url = some value
  | .crt => o.crt = some value
  | .data => o.dataFile = some value
  | .retries => o.retries = atoi value
  | .timeout => o.timeout = atoi value

/-- The variable of an option is the same. -/
def Options.Same (o o' : Options) : ValueOption → Prop
  | .url => o'.url = o.url
  | .crt => o'.crt = o.crt
  | .data => o'.dataFile = o.dataFile
  | .retries => o'.retries = o.retries
  | .timeout => o'.timeout = o.timeout

/-- What arguments make of the variables: the last value of an option counts. -/
structure Describes (o : Options) (args : List Bytes) (o' : Options) : Prop where
  given : ∀ v value, Given v args value → o'.Shows value v
  absent : ∀ v : ValueOption, v.text ∉ args → o.Same o' v
  ignoreCert : o'.ignoreCert = true ↔ o.ignoreCert = true ∨ ignoreCertText ∈ args

variable {o o' : Options} {v w : ValueOption} {arg value : Bytes} {args rest : List Bytes}

theorem text_inj (h : v.text = w.text) : v = w := by
  cases v <;> cases w <;> first | rfl | exact absurd h (by decide)

theorem text_ne_ignore_cert (v : ValueOption) : v.text ≠ ignoreCertText := by
  cases v <;> decide

theorem text_ne_help (v : ValueOption) : v.text ≠ helpText := by
  cases v <;> decide

/-- The table of the options is complete. -/
theorem value_option_eq_some : valueOption arg = some v ↔ arg = v.text := by
  constructor
  · intro h
    have hfound := List.find?_some h
    exact (of_decide_eq_true hfound).symm
  · rintro rfl
    cases v <;> decide

theorem value_option_eq_none : valueOption arg = none ↔ ∀ v : ValueOption, arg ≠ v.text := by
  rw [Option.eq_none_iff_forall_ne_some]
  exact forall_congr' fun v => not_congr value_option_eq_some

/-- An assignment sets the variable of its option to the value. -/
theorem assign_shows (o : Options) (value : Bytes) (v : ValueOption) :
    (o.assign value v).Shows value v := by
  cases v <;> rfl

/-- It leaves the other variables as they are. -/
theorem assign_same (o : Options) (value : Bytes) (hne : w ≠ v) : o.Same (o.assign value v) w := by
  cases v <;> cases w <;> first | rfl | exact absurd rfl hne

theorem assign_ignore_cert (o : Options) (value : Bytes) (v : ValueOption) :
    (o.assign value v).ignoreCert = o.ignoreCert := by
  cases v <;> rfl

theorem Options.Same.trans {o₁ : Options} (h : o.Same o₁ v) (h' : o₁.Same o' v) : o.Same o' v := by
  cases v <;> exact Eq.trans h' h

/-- What a value stands for is still there where nothing has changed. -/
theorem Options.Shows.same (h : o.Shows value v) (hsame : o.Same o' v) : o'.Shows value v := by
  cases v <;> exact Eq.trans hsame h

/-- Variables that are set to the same value are the same. -/
theorem Options.Shows.unique (h : o.Shows value v) (h' : o'.Shows value v) : o.Same o' v := by
  cases v <;> exact Eq.trans h' (Eq.symm h)

/-- One more argument in front. -/
theorem understood_cons : Understood (arg :: rest) ↔
    arg ≠ helpText ∧ (∀ v : ValueOption, arg = v.text → ∃ value, rest.head? = some value) ∧
      Understood rest := by
  constructor
  · intro h
    refine ⟨fun heq => h.noHelp (heq ▸ List.mem_cons_self), fun v heq => ?_,
      fun hhelp => h.noHelp (List.mem_cons_of_mem _ hhelp), fun v before after heq => ?_⟩
    · exact h.values v [] rest (heq ▸ rfl)
    · exact h.values v (arg :: before) after (heq ▸ rfl)
  · rintro ⟨hfirst, hvalue, h⟩
    refine ⟨fun hmem => (List.mem_cons.mp hmem).elim hfirst.symm h.noHelp,
      fun v before after heq => ?_⟩
    cases before with
    | nil =>
        obtain ⟨harg, rfl⟩ := List.cons.inj heq
        exact hvalue v harg
    | cons skipped before => exact h.values v before after (List.cons.inj heq).2

/-- The last occurrence of an option is behind the first argument, or is the first argument. -/
theorem given_cons : Given v (arg :: rest) value ↔
    Given v rest value ∨ v.text ∉ rest ∧ arg = v.text ∧ rest.head? = some value := by
  constructor
  · rintro ⟨before, after, heq, hlast⟩
    cases before with
    | nil =>
        obtain ⟨rfl, rfl⟩ := List.cons.inj heq
        exact .inr ⟨hlast, rfl, rfl⟩
    | cons skipped before => exact .inl ⟨before, after, (List.cons.inj heq).2, hlast⟩
  · rintro (⟨before, after, rfl, hlast⟩ | ⟨hlast, rfl, hhead⟩)
    · exact ⟨arg :: before, after, rfl, hlast⟩
    · obtain ⟨after, rfl⟩ := List.head?_eq_some_iff.mp hhead
      exact ⟨[], after, rfl, hlast⟩

/-- An option that is there has a last value. -/
theorem Understood.given (h : Understood args) (hmem : v.text ∈ args) :
    ∃ value, Given v args value := by
  induction args with
  | nil => cases hmem
  | cons arg rest ih =>
      obtain ⟨-, hvalue, hrest⟩ := understood_cons.mp h
      by_cases hlater : v.text ∈ rest
      · obtain ⟨value, hgiven⟩ := ih hrest hlater
        exact ⟨value, given_cons.mpr (.inl hgiven)⟩
      · have harg : arg = v.text := ((List.mem_cons.mp hmem).resolve_right hlater).symm
        obtain ⟨value, hhead⟩ := hvalue v harg
        exact ⟨value, given_cons.mpr (.inr ⟨hlater, harg, hhead⟩)⟩

/-- No arguments. -/
theorem describes_nil (o : Options) : Describes o [] o where
  given := fun _ _ ⟨before, _, heq, _⟩ => absurd heq.symm (by simp)
  absent := fun v _ => by cases v <;> rfl
  ignoreCert := by simp

/-- An option with its value in front of arguments that are described. -/
theorem Describes.option (hhead : rest.head? = some value)
    (h : Describes (o.assign value v) rest o') : Describes o (v.text :: rest) o' where
  given := by
    intro w other hgiven
    rcases given_cons.mp hgiven with hlater | ⟨hlast, heq, hother⟩
    · exact h.given w other hlater
    · -- no later value has replaced the one that was assigned
      obtain rfl := text_inj heq
      obtain rfl := Option.some.inj (hhead.symm.trans hother)
      exact (assign_shows o value v).same (h.absent v hlast)
  absent := by
    intro w hnone
    rw [List.mem_cons, not_or] at hnone
    obtain ⟨hne, hrest⟩ := hnone
    exact (assign_same o value fun heq => hne (congrArg _ heq)).trans (h.absent w hrest)
  ignoreCert := by
    rw [h.ignoreCert, assign_ignore_cert, List.mem_cons,
      or_iff_right (text_ne_ignore_cert v).symm]

/-- An argument in front that is no option with a value. -/
theorem Describes.skip {o₁ : Options} (hnone : ∀ v : ValueOption, arg ≠ v.text)
    (hsame : ∀ v, o.Same o₁ v)
    (hignore : o₁.ignoreCert = true ↔ o.ignoreCert = true ∨ ignoreCertText = arg)
    (h : Describes o₁ rest o') : Describes o (arg :: rest) o' where
  given := by
    intro w other hgiven
    rcases given_cons.mp hgiven with hlater | ⟨-, heq, -⟩
    · exact h.given w other hlater
    · exact absurd heq (hnone w)
  absent := fun w hw => (hsame w).trans (h.absent w fun hmem => hw (List.mem_cons_of_mem _ hmem))
  ignoreCert := by rw [h.ignoreCert, hignore, List.mem_cons, or_assoc]

/-- The loop sets the variables to what the arguments describe. -/
theorem parse_options_describes (h : parseOptions o args = some o') : Describes o args o' := by
  induction args generalizing o with
  | nil =>
      cases h
      exact describes_nil _
  | cons arg rest ih =>
      rw [parseOptions] at h
      split at h
      · next v hv =>
          obtain rfl := value_option_eq_some.mp hv
          obtain ⟨value, hhead, hparse⟩ := Option.bind_eq_some_iff.mp h
          exact (ih hparse).option hhead
      · next hv =>
          have hnone := value_option_eq_none.mp hv
          split at h
          · next hignore =>
              refine (ih h).skip hnone (fun v => by cases v <;> rfl) ?_
              exact iff_of_true rfl (.inr hignore.symm)
          · next hother =>
              refine (ih (Option.ite_none_left_eq_some.mp h).2).skip hnone
                (fun v => by cases v <;> rfl) ?_
              rw [or_iff_left fun heq => hother heq.symm]

/-- The loop gets to its end if the arguments are understood. -/
theorem parse_options_is_some_iff : (∃ o', parseOptions o args = some o') ↔ Understood args := by
  induction args generalizing o with
  | nil => exact iff_of_true ⟨o, rfl⟩ ⟨List.not_mem_nil, fun _ _ _ heq => absurd heq.symm (by simp)⟩
  | cons arg rest ih =>
      rw [understood_cons, parseOptions]
      split
      · next v hv =>
          obtain rfl := value_option_eq_some.mp hv
          constructor
          · rintro ⟨o', h⟩
            obtain ⟨value, hhead, hparse⟩ := Option.bind_eq_some_iff.mp h
            exact ⟨text_ne_help v, fun _ _ => ⟨value, hhead⟩, ih.mp ⟨o', hparse⟩⟩
          · rintro ⟨-, hvalue, hrest⟩
            obtain ⟨value, hhead⟩ := hvalue v rfl
            obtain ⟨o', hparse⟩ := ih.mpr hrest
            exact ⟨o', by rw [hhead, Option.bind_some, hparse]⟩
      · next hv =>
          have hnone := value_option_eq_none.mp hv
          rw [and_iff_right (show ∀ v : ValueOption, arg = v.text → _ from
            fun v heq => absurd heq (hnone v))]
          split
          · next hignore =>
              rw [ih, and_iff_right (show arg ≠ helpText from hignore ▸ by decide)]
          · next hother =>
              split
              · next hhelp => exact iff_of_false nofun fun h => h.1 hhelp
              · next hhelp => rw [ih, and_iff_right hhelp]

/-- Arguments that are understood describe one setting of the variables. -/
theorem Describes.unique {o₁ o₂ : Options} (hu : Understood args) (h₁ : Describes o args o₁)
    (h₂ : Describes o args o₂) : o₁ = o₂ := by
  have hsame : ∀ v, o₁.Same o₂ v := by
    intro v
    by_cases hmem : v.text ∈ args
    · obtain ⟨value, hgiven⟩ := hu.given hmem
      exact (h₁.given v value hgiven).unique (h₂.given v value hgiven)
    · have hkept := h₁.absent v hmem
      have hkept' := h₂.absent v hmem
      cases v <;> exact Eq.trans hkept' (Eq.symm hkept)
  have hignore : o₁.ignoreCert = o₂.ignoreCert :=
    Bool.eq_iff_iff.mpr (h₁.ignoreCert.trans h₂.ignoreCert.symm)
  exact (Options.ext (hsame .url) (hsame .crt) hignore.symm (hsame .data) (hsame .retries)
    (hsame .timeout)).symm

/-- Which command lines are understood, and what the variables are then. -/
theorem parse_options_iff :
    parseOptions o args = some o' ↔ Understood args ∧ Describes o args o' := by
  constructor
  · intro h
    exact ⟨parse_options_is_some_iff.mp ⟨o', h⟩, parse_options_describes h⟩
  · rintro ⟨hu, h⟩
    obtain ⟨o₁, hparse⟩ := parse_options_is_some_iff (o := o).mpr hu
    rw [hparse, (parse_options_describes hparse).unique hu h]

/-! ## The request -/

/-- Every call that may fail succeeds, up to the one that makes the request. -/
structure System.Succeeds (sys : System) (crt : Option Bytes) (r : Request) : Prop where
  randPoll : sys.randPoll = true
  sslCtxNew : sys.sslCtxNew = true
  certificates : sys.certificates crt = true
  eventBaseNew : sys.eventBaseNew = true
  sslNew : sys.sslNew = true
  bufferevent : sys.bufferevent r.tls = true
  connection : sys.connection r.host r.port = true
  requestNew : sys.requestNew = true
  makeRequest : sys.makeRequest r = true

/-- What a URL asks for, with the variables as the options have set them. -/
structure Asks (sys : System) (o : Options) (uri : HttpUri) (r : Request) : Prop where
  scheme : ∃ scheme, uri.scheme = some scheme ∧
    (EventWb.strcasecmp scheme (ascii "http") = true ∧ r.tls = false ∧ r.port = uri.port.getD 80 ∨
      EventWb.strcasecmp scheme (ascii "https") = true ∧ r.tls = true ∧
        r.port = uri.port.getD 443)
  host : uri.host = some r.host
  ignoreCert : r.ignoreCert = o.ignoreCert
  retries : ∀ n, r.retries = some n ↔ o.retries = n ∧ 0 < n
  timeout : ∀ n, r.timeout = some n ↔ o.timeout = n ∧ 0 ≤ n
  target : r.uri = (requestText uri).take 254
  bodyless : o.dataFile = none → r.post = false ∧ r.body = [] ∧
    r.headers = [(ascii "Host", r.host), (ascii "Connection", ascii "close")]
  file : ∀ name, o.dataFile = some name → r.post = true ∧ sys.fopen name = some r.body ∧
    r.headers = [(ascii "Host", r.host), (ascii "Connection", ascii "close"),
      (ascii "Content-Length", decimal r.body.length)]

variable {sys : System} {uri : HttpUri} {r : Request}

/-- The path and the query are C strings. -/
theorem zero_not_mem_request_text (uri : HttpUri) : 0 ∉ requestText uri := by
  have hpath : 0 ∉ requestPath uri := by
    unfold requestPath
    split
    · decide
    · exact uri.pathNul
  unfold requestText
  split
  · exact hpath
  · next query hquery =>
      rw [List.mem_append, List.mem_append]
      rintro ((hmem | hmem) | hmem)
      · exact hpath hmem
      · exact absurd hmem (by decide)
      · exact uri.queryNul query hquery hmem

/-- What is requested is cut to 254 bytes. -/
theorem request_uri_eq (uri : HttpUri) : requestUri uri = (requestText uri).take 254 := by
  rw [requestUri, cstr_snprintf_take (zero_not_mem_request_text uri), zeros, List.length_replicate]

/-- The loop reads the whole file, and counts its bytes. -/
theorem add_file_eq (outputBuffer : Bytes) (bytes : Nat) (left : Bytes) :
    addFile outputBuffer bytes left = (outputBuffer ++ left, bytes + left.length) := by
  fun_induction addFile outputBuffer bytes left with
  | case1 outputBuffer bytes left buf hread ih =>
      rw [ih, List.append_assoc, List.take_append_drop, Nat.add_assoc, ← List.length_append,
        List.take_append_drop]
  | case2 outputBuffer bytes left buf hread =>
      have hnone : left = [] := by
        rw [List.length_take] at hread
        exact List.length_eq_zero_iff.mp (by omega)
      rw [hnone, List.append_nil]
      rfl

/-- The scheme of a URL decides on the port and on TLS. -/
theorem scheme_iff {scheme : Bytes} (port : Option Nat) {tls : Bool} {n : Nat} :
    (EventWb.strcasecmp scheme (ascii "https") = true ∨
        EventWb.strcasecmp scheme (ascii "http") = true) ∧
      tls = !EventWb.strcasecmp scheme (ascii "http") ∧
      n = port.getD (if EventWb.strcasecmp scheme (ascii "http") then 80 else 443) ↔
    (EventWb.strcasecmp scheme (ascii "http") = true ∧ tls = false ∧ n = port.getD 80 ∨
      EventWb.strcasecmp scheme (ascii "https") = true ∧ tls = true ∧ n = port.getD 443) := by
  cases hhttp : EventWb.strcasecmp scheme (ascii "http") with
  | false => simp
  | true =>
      -- a text is not the same as both
      have hother : EventWb.strcasecmp scheme (ascii "https") = false := by
        rw [EventWb.strcasecmp, decide_eq_true_eq] at hhttp
        rw [EventWb.strcasecmp, hhttp]
        decide
      simp [hother]

theorem positive_setting (o : Options) (n : Int) :
    (if 0 < o.retries then some o.retries else none) = some n ↔ o.retries = n ∧ 0 < n := by
  rw [Option.ite_none_right_eq_some, Option.some.injEq, and_comm]
  exact and_congr_right fun heq => by rw [heq]

theorem nonneg_setting (o : Options) (n : Int) :
    (if 0 ≤ o.timeout then some o.timeout else none) = some n ↔ o.timeout = n ∧ 0 ≤ n := by
  rw [Option.ite_none_right_eq_some, Option.some.injEq, and_comm]
  exact and_congr_right fun heq => by rw [heq]

/-- Reading the data file changes nothing else. -/
theorem add_data_spec {dataFile : Option Bytes} {request : Request}
    (h : addData sys dataFile request = some r) :
    r.host = request.host ∧ r.port = request.port ∧ r.tls = request.tls ∧
      r.ignoreCert = request.ignoreCert ∧ r.retries = request.retries ∧
      r.timeout = request.timeout ∧ r.uri = request.uri ∧
      (dataFile = none → r = request) ∧
      ∀ name, dataFile = some name → r.post = true ∧ sys.fopen name = some r.body ∧
        r.headers = request.headers ++ [(ascii "Content-Length", decimal r.body.length)] := by
  cases dataFile with
  | none =>
      obtain rfl := Option.some.inj h
      exact ⟨rfl, rfl, rfl, rfl, rfl, rfl, rfl, fun _ => rfl, nofun⟩
  | some name =>
      obtain ⟨content, hopen, heq⟩ := Option.map_eq_some_iff.mp h
      rw [add_file_eq, List.nil_append, Nat.zero_add] at heq
      rw [← heq]
      refine ⟨rfl, rfl, rfl, rfl, rfl, rfl, rfl, nofun, fun other hother => ?_⟩
      rw [← Option.some.inj hother]
      exact ⟨rfl, hopen, rfl⟩

/-- The URL asks for the plain request with the data. -/
theorem asks_data {o : Options} {scheme host : Bytes} (hscheme : uri.scheme = some scheme)
    (hkind : EventWb.strcasecmp scheme (ascii "https") = true ∨
      EventWb.strcasecmp scheme (ascii "http") = true) (hhost : uri.host = some host)
    (h : addData sys o.dataFile (plainRequest o uri scheme host) = some r) : Asks sys o uri r := by
  obtain ⟨hsame, hport, htls, hignore, hretries, htimeout, htarget, hplain, hfile⟩ :=
    add_data_spec h
  exact
    { scheme := ⟨scheme, hscheme, (scheme_iff uri.port).mp ⟨hkind, htls, hport⟩⟩
      host := hhost.trans (congrArg some hsame.symm)
      ignoreCert := hignore
      retries := fun n => (Eq.congr_left hretries).trans (positive_setting o n)
      timeout := fun n => (Eq.congr_left htimeout).trans (nonneg_setting o n)
      target := by simp only [htarget, plainRequest, request_uri_eq]
      bodyless := fun hnone => by
        rw [hplain hnone]
        exact ⟨rfl, rfl, rfl⟩
      file := fun name hname => by
        obtain ⟨hpost, hopen, hheaders⟩ := hfile name hname
        exact ⟨hpost, hopen, by rw [hheaders, hsame]; rfl⟩ }

/-- A URL asks for one request. -/
theorem Asks.unique {o : Options} {r' : Request} (h : Asks sys o uri r) (h' : Asks sys o uri r') :
    r = r' := by
  obtain ⟨scheme, hscheme, hports⟩ := h.scheme
  obtain ⟨scheme', hscheme', hports'⟩ := h'.scheme
  obtain rfl := Option.some.inj (hscheme.symm.trans hscheme')
  obtain ⟨-, htls, hport⟩ := (scheme_iff uri.port).mpr hports
  obtain ⟨-, htls', hport'⟩ := (scheme_iff uri.port).mpr hports'
  have hhost := Option.some.inj (h.host.symm.trans h'.host)
  have hretries : r.retries = r'.retries :=
    Option.ext fun n => (h.retries n).trans (h'.retries n).symm
  have htimeout : r.timeout = r'.timeout :=
    Option.ext fun n => (h.timeout n).trans (h'.timeout n).symm
  have hcontent : r.post = r'.post ∧ r.headers = r'.headers ∧ r.body = r'.body := by
    cases hfile : o.dataFile with
    | none =>
        obtain ⟨hpost, hbody, hheaders⟩ := h.bodyless hfile
        obtain ⟨hpost', hbody', hheaders'⟩ := h'.bodyless hfile
        exact ⟨hpost.trans hpost'.symm, by rw [hheaders, hheaders', hhost],
          hbody.trans hbody'.symm⟩
    | some name =>
        obtain ⟨hpost, hopen, hheaders⟩ := h.file name hfile
        obtain ⟨hpost', hopen', hheaders'⟩ := h'.file name hfile
        have hbody := Option.some.inj (hopen.symm.trans hopen')
        exact ⟨hpost.trans hpost'.symm, by rw [hheaders, hheaders', hhost, hbody], hbody⟩
  exact Request.ext hhost (hport.trans hport'.symm) (htls.trans htls'.symm)
    (h.ignoreCert.trans h'.ignoreCert.symm) hretries htimeout hcontent.1
    (h.target.trans h'.target.symm) hcontent.2.1 hcontent.2.2

/-- The request is one that the URL asks for, and every call that may fail has succeeded. -/
theorem main_asks (h : main sys args = some r) : Understood args ∧ ∃ o url uri,
    Describes .initial args o ∧ o.url = some url ∧ sys.uriParse url = some uri ∧
      Asks sys o uri r ∧ sys.Succeeds o.crt r := by
  simp only [main, Option.bind_eq_bind, Option.bind_eq_some_iff, Option.guard_eq_some',
    Bool.or_eq_true] at h
  obtain ⟨o, hparse, url, hurl, uri, huri, scheme, hscheme, -, hkind, host, hhost, -, hrand, -,
    hctx, -, hcertificates, -, hbase, -, hssl, -, hbufferevent, -, hconnection, -, hnew, request,
    hdata, -, hmake, heq⟩ := h
  obtain rfl : request = r := Option.some.inj heq
  obtain ⟨hu, hdescribes⟩ := parse_options_iff.mp hparse
  obtain ⟨hsame, hport, htls, -⟩ := add_data_spec hdata
  rw [← htls] at hbufferevent
  rw [← hsame, ← hport] at hconnection
  exact ⟨hu, o, url, uri, hdescribes, hurl, huri, asks_data hscheme hkind hhost hdata,
    ⟨hrand, hctx, hcertificates, hbase, hssl, hbufferevent, hconnection, hnew, hmake⟩⟩

/-- A request is made when there is one that the URL asks for, and every call succeeds. -/
theorem main_of_asks {o : Options} {url : Bytes} (hparse : parseOptions .initial args = some o)
    (hurl : o.url = some url) (huri : sys.uriParse url = some uri) (h : Asks sys o uri r)
    (hcalls : sys.Succeeds o.crt r) : main sys args = some r := by
  obtain ⟨scheme, hscheme, hports⟩ := h.scheme
  have hkind := ((scheme_iff uri.port).mpr hports).1
  -- the data can be added, and then it is this request that the URL asks for
  have hdata : addData sys o.dataFile (plainRequest o uri scheme r.host) = some r := by
    obtain ⟨made, hmade⟩ : ∃ made,
        addData sys o.dataFile (plainRequest o uri scheme r.host) = some made := by
      cases hfile : o.dataFile with
      | none => exact ⟨_, rfl⟩
      | some name => exact ⟨_, by rw [addData, (h.file name hfile).2.1, Option.map_some]⟩
    rw [hmade, (asks_data hscheme hkind h.host hmade).unique h]
  obtain ⟨hsame, hport, htls, -⟩ := add_data_spec hdata
  have hbufferevent := hcalls.bufferevent
  have hconnection := hcalls.connection
  rw [htls] at hbufferevent
  rw [hsame, hport] at hconnection
  simp only [main, Option.bind_eq_bind, hparse, hurl, huri, hscheme, h.host, Option.bind_some,
    Bool.or_eq_true, hkind, guard_true, Option.pure_def, hcalls.randPoll, hcalls.sslCtxNew,
    hcalls.certificates, hcalls.eventBaseNew, hcalls.sslNew, hbufferevent, hconnection,
    hcalls.requestNew, hdata, hcalls.makeRequest]

/-- What is requested for a command line: nothing if it is not understood, has no URL, or a call
fails, and otherwise what the URL asks for, with the value behind the last occurrence of each
option. -/
theorem main_iff : main sys args = some r ↔
    Understood args ∧ ∃ o url uri, Describes .initial args o ∧ o.url = some url ∧
      sys.uriParse url = some uri ∧ Asks sys o uri r ∧ sys.Succeeds o.crt r := by
  refine ⟨main_asks, ?_⟩
  intro ⟨hu, o, url, uri, hdescribes, hurl, huri, hasks, hcalls⟩
  exact main_of_asks (parse_options_iff.mpr ⟨hu, hdescribes⟩) hurl huri hasks hcalls

end UnixNet.HttpsClient
