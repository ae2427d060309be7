import Xdccget.DccMessages

set_option autoImplicit false

/-!
# Offers as their senders write them

An announcement is printed with decimal numbers and, around a name with blanks,
with quotes. Decoding gives it back exactly when the quoted pattern is reached.
-/
namespace Xdccget.DccOffers
open CText Scanf DccMessages

inductive OfferKind
  | send (port : ℕ)
  | ssend (port : ℕ)
  | reverse (token : ℕ)
  deriving DecidableEq, Repr

structure Announcement where
  kind : OfferKind
  quoted : Bool
  name : Bytes
  ip : ℕ
  size : ℕ

def OfferKind.InRange : OfferKind → Prop
  | .send port => 0 < port ∧ port < 2 ^ 16
  | .ssend port => 0 < port ∧ port < 2 ^ 16
  | .reverse token => token < 2 ^ 32

def Announcement.keyword (a : Announcement) : Bytes :=
  match a.kind with
  | .ssend _ => bytes "DCC SSEND "
  | _ => bytes "DCC SEND "

def Announcement.fileField (a : Announcement) : Bytes :=
  if a.quoted then quote :: (a.name ++ [quote]) else a.name

def Announcement.numberFields (a : Announcement) : List ℕ :=
  match a.kind with
  | .send port => [a.ip, port, a.size]
  | .ssend port => [a.ip, port, a.size]
  | .reverse token => [a.ip, 0, a.size, token]

def Announcement.text (a : Announcement) : Bytes :=
  a.keyword ++ (a.fileField ++ numbersText a.numberFields)

def Announcement.call (a : Announcement) : DccCall :=
  match a.kind with
  | .send port => .acceptDccSend a.name a.ip a.size port false
  | .ssend port => .acceptDccSend a.name a.ip a.size port true
  | .reverse token => .acceptReverseDccSend a.name a.ip a.size token false

/-- An announcement that can be sent: the name has no byte that ends the field or the
    line, the numbers have their widths and the text fits `ctcp_buf`. -/
structure Offer extends Announcement where
  name_ne : name ≠ []
  name_clean : ∀ c ∈ name, c ∉ [quote, cr, lf, nul]
  unquoted_solid : quoted = false → ∀ c ∈ name, isspace c = false
  ip_lt : ip < 2 ^ 32
  size_lt : size < 2 ^ 64
  kind_inRange : kind.InRange
  fits : toAnnouncement.text.length < libircBufferSize

/-- As many numbers as a send pattern asks for stand at the start of `s`. -/
def threeNumbers (s : Bytes) : Bool := countNumbers 3 s = 3

def afterFirstWord (name : Bytes) : Bytes := name.dropWhile (fun c => !isspace c)

/-- The field needs no quotes, or it is that of a plain send whose name has white space and,
    behind its first word, no three numbers. -/
def Announcement.Decodable (a : Announcement) : Prop :=
  a.quoted = false ∨
    ((∃ port, a.kind = .send port) ∧ (∃ c ∈ a.name, isspace c = true) ∧
      threeNumbers (afterFirstWord a.name) = false)

theorem scan_send_keyword (ds : List Directive) (s : Bytes) :
    scan (literal "DCC SEND " ++ ds) (bytes "DCC SEND " ++ s) = scan (.white :: ds) s := rfl

theorem scan_ssend_keyword (ds : List Directive) (s : Bytes) :
    scan (literal "DCC SSEND " ++ ds) (bytes "DCC SSEND " ++ s) = scan (.white :: ds) s := rfl

theorem scan_send_of_ssend (ds : List Directive) (s : Bytes) :
    scan (literal "DCC SEND " ++ ds) (bytes "DCC SSEND " ++ s) = [] := rfl

theorem scan_word {word s : Bytes} (ds : List Directive) (hne : word ≠ [])
    (hword : ∀ c ∈ word, isspace c = false) (hlen : word.length ≤ libircBufferSize)
    (hs : Stops (fun c => !isspace c) s) :
    scan (.white :: .str libircBufferSize :: ds) (word ++ s) = .text word :: scan ds s := by
  have hstop : Stops isspace (word ++ s) := by
    intro c hc
    rw [List.head?_append_of_ne_nil _ hne] at hc
    exact hword c (List.mem_of_mem_head? hc)
  rw [scan_white_of_stops _ hstop]
  simp [scan, read_str hne hword hlen hs]

theorem nul_not_mem_text (o : Offer) : nul ∉ o.text := by
  have hname : nul ∉ o.name := fun h => o.name_clean nul h (by decide)
  have hkeyword : nul ∉ o.keyword := by
    unfold Announcement.keyword
    split <;> decide
  have hfield : nul ∉ o.fileField := by
    unfold Announcement.fileField
    split
    · simp only [List.mem_cons, List.mem_append, List.not_mem_nil, or_false, not_or]
      exact ⟨by decide, hname, by decide⟩
    · exact hname
  simp only [Announcement.text, List.mem_append, not_or]
  exact ⟨hkeyword, hfield, nul_not_mem_numbersText _⟩

theorem sscanf_text (o : Offer) (format : List Directive) :
    sscanf format o.text = scan format o.text := by
  unfold sscanf
  rw [cstr_of_no_nul (nul_not_mem_text o)]

theorem fileField_length (o : Offer) : o.fileField.length ≤ libircBufferSize := by
  have h := o.fits
  simp only [Announcement.text, List.length_append] at h
  omega

theorem scan_send_numbers {ip port size : ℕ} (hip : ip < 2 ^ 32) (hport : port < 2 ^ 16)
    (hsize : size < 2 ^ 64) :
    scan (numbers [64, 16, 64]) (numbersText [ip, port, size]) =
      [.num ip, .num port, .num size] := by
  have h := scan_numbers [(64, ip), (16, port), (64, size)] [] []
    (by simp only [List.mem_cons, List.not_mem_nil, or_false, forall_eq_or_imp, forall_eq]; omega)
    (fun c hc => absurd hc (by simp))
  simpa [scan] using h

theorem scan_reverse_of_port {ip port : ℕ} (ns : List ℕ) (hip : ip < 2 ^ 32) (hport : 0 < port) :
    scan (numbers [64] ++ literal " 0" ++ numbers [64, 64]) (numbersText (ip :: port :: ns)) =
      [.num ip] := by
  obtain ⟨c, s, hdec, hc⟩ := decimal_cons_of_pos hport
  have hfirst := scan_numbers [(64, ip)] (literal " 0" ++ numbers [64, 64]) (numbersText (port :: ns))
    (by simp only [List.mem_cons, List.not_mem_nil, or_false, forall_eq]; omega)
    (by simpa using stops_numbersText (port :: ns) (s := []) (p := isdigit) (by decide)
          (fun c hc => absurd hc (by simp)))
  have hdigit : isdigit c = true := decimal_isdigit (n := port) (by rw [hdec]; simp)
  have hrest : scan (literal " 0" ++ numbers [64, 64]) (numbersText (port :: ns)) = [] := by
    change scan (.white :: .lit zero :: numbers [64, 64]) (space :: (decimal port ++ numbersText ns)) = []
    rw [scan_white_space, hdec, List.cons_append, scan_white_of_stops]
    · simp [scan, Directive.read, zero, hc]
    · intro d hd
      rw [← Option.some.inj hd]
      exact not_isspace_of_isdigit hdigit
  rw [hrest] at hfirst
  simpa [numbersText] using hfirst

theorem scan_reverse_numbers {ip size token : ℕ} (hip : ip < 2 ^ 32) (hsize : size < 2 ^ 64)
    (htoken : token < 2 ^ 32) :
    scan (numbers [64] ++ literal " 0" ++ numbers [64, 64]) (numbersText [ip, 0, size, token]) =
      [.num ip, .num size, .num token] := by
  have hnil : Stops isdigit [] := fun c hc => absurd hc (by simp)
  have hstop (ns : List ℕ) : Stops isdigit (numbersText ns) := by
    simpa using stops_numbersText ns (s := []) (p := isdigit) (by decide) hnil
  have hfirst := scan_numbers [(64, ip)] (literal " 0" ++ numbers [64, 64])
    (numbersText [0, size, token])
    (by simp only [List.mem_cons, List.not_mem_nil, or_false, forall_eq]; omega) (hstop _)
  have hzero : scan (literal " 0" ++ numbers [64, 64]) (numbersText [0, size, token]) =
      scan (numbers [64, 64]) (numbersText [size, token]) := rfl
  have hlast := scan_numbers [(64, size), (64, token)] [] []
    (by simp only [List.mem_cons, List.not_mem_nil, or_false, forall_eq_or_imp, forall_eq]; omega)
    hnil
  have hlast' : scan (numbers [64, 64]) (numbersText [size, token]) = [.num size, .num token] := by
    simpa [scan] using hlast
  rw [hzero, hlast'] at hfirst
  simpa [numbersText] using hfirst

theorem unquoted_fields (o : Offer) (h : o.quoted = false) :
    o.fileField = o.name ∧ o.name.length ≤ libircBufferSize := by
  have hfield : o.fileField = o.name := by simp [Announcement.fileField, h]
  exact ⟨hfield, hfield ▸ fileField_length o⟩

theorem stops_fields (ns : List ℕ) : Stops (fun c => !isspace c) (numbersText ns) := by
  simpa using stops_numbersText ns (s := []) (p := fun c => !isspace c) (by decide)
    (fun c hc => absurd hc (by simp))

theorem unquoted_decoded (o : Offer) (h : o.quoted = false) :
    dccRequestCall true o.text = o.call := by
  obtain ⟨hfield, hlen⟩ := unquoted_fields o h
  have hword (ds : List Directive) :
      scan (.white :: .str libircBufferSize :: ds) (o.name ++ numbersText o.numberFields) =
        .text o.name :: scan ds (numbersText o.numberFields) :=
    scan_word ds o.name_ne (o.unquoted_solid h) hlen (stops_fields _)
  have hrange := o.kind_inRange
  have hip := o.ip_lt
  have hsize := o.size_lt
  cases hk : o.kind with
  | send port =>
    have htext : o.text = bytes "DCC SEND " ++ (o.name ++ numbersText o.numberFields) := by
      simp [Announcement.text, Announcement.keyword, hk, hfield]
    have hnumbers : o.numberFields = [o.ip, port, o.size] := by simp [Announcement.numberFields, hk]
    rw [hk] at hrange
    have hreverse : reverseSendCall o.text = none := by
      unfold reverseSendCall reverseSendFormat
      rw [sscanf_text, htext, scan_send_keyword, hword, hnumbers,
        scan_reverse_of_port _ hip hrange.1]
    have hsend : sendCall sendFormat false o.text = some o.call := by
      unfold sendCall sendFormat
      rw [sscanf_text, htext, scan_send_keyword, hword, hnumbers,
        scan_send_numbers hip hrange.2 hsize]
      simp [Announcement.call, hk]
    simp [dccRequestCall, dccPatterns, hreverse, hsend]
  | ssend port =>
    have htext : o.text = bytes "DCC SSEND " ++ (o.name ++ numbersText o.numberFields) := by
      simp [Announcement.text, Announcement.keyword, hk, hfield]
    have hnumbers : o.numberFields = [o.ip, port, o.size] := by simp [Announcement.numberFields, hk]
    rw [hk] at hrange
    have hplain (ds : List Directive) : sscanf (literal "DCC SEND " ++ ds) o.text = [] := by
      rw [sscanf_text, htext, scan_send_of_ssend]
    have hssend : sendCall ssendFormat true o.text = some o.call := by
      unfold sendCall ssendFormat
      rw [sscanf_text, htext, scan_ssend_keyword, hword, hnumbers,
        scan_send_numbers hip hrange.2 hsize]
      simp [Announcement.call, hk]
    have hearlier : reverseSendCall o.text = none ∧ sendCall sendFormat false o.text = none ∧
        sendCall quotedSendFormat false o.text = none ∧ sendWithoutSizeCall o.text = none := by
      unfold reverseSendCall sendCall sendWithoutSizeCall reverseSendFormat sendFormat
        quotedSendFormat sendWithoutSizeFormat
      simp only [hplain, and_self]
    simp [dccRequestCall, dccPatterns, hearlier, hssend]
  | reverse token =>
    have htext : o.text = bytes "DCC SEND " ++ (o.name ++ numbersText o.numberFields) := by
      simp [Announcement.text, Announcement.keyword, hk, hfield]
    have hnumbers : o.numberFields = [o.ip, 0, o.size, token] := by
      simp [Announcement.numberFields, hk]
    rw [hk] at hrange
    have hreverse : reverseSendCall o.text = some o.call := by
      unfold reverseSendCall reverseSendFormat
      rw [sscanf_text, htext, scan_send_keyword, hword, hnumbers,
        scan_reverse_numbers hip hsize hrange]
      simp [Announcement.call, hk]
    simp [dccRequestCall, dccPatterns, hreverse]

/-- What `%s` takes of a quoted field: up to the first white space of the name, or all of it. -/
def capturedWord (name : Bytes) : Bytes := quote :: (name ++ [quote]).takeWhile (fun c => !isspace c)

def behindCaptured (name : Bytes) (ns : List ℕ) : Bytes :=
  (name ++ [quote]).dropWhile (fun c => !isspace c) ++ numbersText ns

theorem capturedWord_append (name : Bytes) (ns : List ℕ) :
    quote :: (name ++ [quote]) ++ numbersText ns = capturedWord name ++ behindCaptured name ns := by
  simp only [capturedWord, behindCaptured, List.cons_append, ← List.append_assoc,
    List.takeWhile_append_dropWhile]

theorem scan_captured (o : Offer) (h : o.quoted = true) (ds : List Directive) (ns : List ℕ) :
    scan (.white :: .str libircBufferSize :: ds) (o.fileField ++ numbersText ns) =
      .text (capturedWord o.name) :: scan ds (behindCaptured o.name ns) := by
  have hfield : o.fileField = quote :: (o.name ++ [quote]) := by simp [Announcement.fileField, h]
  have hlen : (capturedWord o.name).length ≤ libircBufferSize := by
    have hfits := fileField_length o
    have hle := (List.takeWhile_prefix (l := o.name ++ [quote]) (fun c => !isspace c)).length_le
    rw [hfield] at hfits
    simp only [capturedWord, List.length_cons] at hfits ⊢
    omega
  have hsolid : ∀ c ∈ capturedWord o.name, isspace c = false := by
    intro c hc
    rcases List.mem_cons.mp hc with rfl | hc
    · decide
    · simpa using List.mem_takeWhile_imp hc
  have hstop : Stops (fun c => !isspace c) (behindCaptured o.name ns) := by
    unfold behindCaptured
    cases hd : (o.name ++ [quote]).dropWhile (fun c => !isspace c) with
    | nil => exact stops_fields ns
    | cons c s =>
      intro d hd'
      have hdrop := stops_dropWhile (fun c => !isspace c) (o.name ++ [quote])
      rw [hd] at hdrop
      exact hdrop d hd'
  rw [hfield, capturedWord_append]
  exact scan_word ds (by simp [capturedWord]) hsolid hlen hstop

/-- A call that `%s` decoded from a quoted field has the opening quote in its name. -/
theorem captured_ne (o : Offer) {call : DccCall}
    (h : call.filename = some (capturedWord o.name)) : call ≠ o.call := by
  intro he
  have hname : o.call.filename = some o.name := by
    unfold Announcement.call
    split <;> rfl
  rw [he, hname] at h
  have hquote : quote ∈ o.name := by
    rw [Option.some.inj h]
    exact List.mem_cons_self
  exact o.name_clean quote hquote (by decide)

theorem scan_send_of_threeNumbers {s : Bytes} (h : threeNumbers s = true) :
    ∃ ip port size, scan (numbers [64, 16, 64]) s = [.num ip, .num port, .num size] := by
  obtain ⟨ns, hscan, hlen⟩ := scan_numbers_all_num [64, 16, 64] s
  have hthree : ns.length = 3 := hlen.trans (by simpa [threeNumbers] using h)
  obtain ⟨ip, port, size, rfl⟩ := List.length_eq_three.mp hthree
  exact ⟨ip, port, size, hscan⟩

theorem threeNumbers_of_scan_send {s : Bytes} {a b c : Value}
    (h : scan (numbers [64, 16, 64]) s = [a, b, c]) : threeNumbers s = true := by
  obtain ⟨ns, hscan, hlen⟩ := scan_numbers_all_num [64, 16, 64] s
  have hthree : ns.length = 3 := by simpa [h] using (congrArg List.length hscan).symm
  simpa [threeNumbers] using hlen.symm.trans hthree

theorem threeNumbers_of_scan_reverse {s : Bytes} {a b c : Value}
    (h : scan (numbers [64] ++ literal " 0" ++ numbers [64, 64]) s = [a, b, c]) :
    threeNumbers s = true := by
  change scan (.unsigned 64 :: .white :: .lit zero :: numbers [64, 64]) (skipSpace s) = _ at h
  obtain ⟨ip, hip⟩ := read_unsigned 64 s
  cases hr : numberRest s with
  | none => simp [scan, hip, hr] at h
  | some r =>
    have hzero : scan (.white :: .lit zero :: numbers [64, 64]) r = [b, c] := by
      simp only [scan, hip, hr, Option.map_some, List.cons_append, List.nil_append] at h
      exact (List.cons.inj h).2
    change scan (.lit zero :: numbers [64, 64]) (skipSpace r) = [b, c] at hzero
    have htwo : countNumbers 2 (skipSpace r) = 2 := by
      cases hs : skipSpace r with
      | nil => simp [hs, scan, Directive.read] at hzero
      | cons d u =>
        by_cases hd : d = zero
        · subst hd
          have hu : scan (numbers [64, 64]) u = [b, c] := by
            simpa [hs, scan, Directive.read] using hzero
          obtain ⟨ns, hscan, hlen⟩ := scan_numbers_all_num [64, 64] u
          have hcount : countNumbers 2 u = 2 := by
            rw [hu] at hscan
            have := congrArg List.length hscan
            simp at this hlen
            omega
          exact countNumbers_zero_cons hcount
        · simp [hs, scan, Directive.read, hd] at hzero
    rw [countNumbers_skipSpace] at htwo
    simp [threeNumbers, countNumbers, hr] at htwo ⊢
    exact htwo

theorem sscanf_quoted_send (o : Offer) (h : o.quoted = true) (hk : ∀ port, o.kind ≠ .ssend port)
    (ds : List Directive) :
    sscanf (literal "DCC SEND " ++ .str libircBufferSize :: ds) o.text =
      .text (capturedWord o.name) :: scan ds (behindCaptured o.name o.numberFields) := by
  have hkeyword : o.keyword = bytes "DCC SEND " := by
    unfold Announcement.keyword
    split
    · next port hport => exact absurd hport (hk port)
    · rfl
  rw [sscanf_text, Announcement.text, hkeyword, scan_send_keyword, scan_captured o h]

/-- Whatever the kind, `%s` behind a keyword that is there takes the captured word. -/
theorem sscanf_quoted (o : Offer) (h : o.quoted = true) (keyword : List Directive)
    (hkeyword : keyword = literal "DCC SEND " ∨ keyword = literal "DCC SSEND ")
    (ds : List Directive) :
    sscanf (keyword ++ .str libircBufferSize :: ds) o.text = [] ∨
      sscanf (keyword ++ .str libircBufferSize :: ds) o.text =
        .text (capturedWord o.name) :: scan ds (behindCaptured o.name o.numberFields) := by
  rw [sscanf_text, Announcement.text, Announcement.keyword]
  split
  · rcases hkeyword with rfl | rfl
    · exact .inl (scan_send_of_ssend _ _)
    · exact .inr ((scan_ssend_keyword _ _).trans (scan_captured o h ds _))
  · rcases hkeyword with rfl | rfl
    · exact .inr ((scan_send_keyword _ _).trans (scan_captured o h ds _))
    · exact .inl rfl

theorem captured_of_sscanf {o : Offer} (h : o.quoted = true) {keyword ds : List Directive}
    (hkeyword : keyword = literal "DCC SEND " ∨ keyword = literal "DCC SSEND ")
    {f : Bytes} {values : List Value}
    (hs : sscanf (keyword ++ .str libircBufferSize :: ds) o.text = .text f :: values) :
    f = capturedWord o.name := by
  rcases sscanf_quoted o h keyword hkeyword ds with hnil | hcons
  · exact absurd (hnil.symm.trans hs) (by simp)
  · have heq := (List.cons.inj (hcons.symm.trans hs)).1
    exact (Value.text.inj heq).symm

theorem captured_of_reverse {o : Offer} (h : o.quoted = true) {call : DccCall}
    (hr : reverseSendCall o.text = some call) : call.filename = some (capturedWord o.name) := by
  obtain ⟨f, ip, size, token, hs, rfl⟩ := reverseSendCall_eq_some hr
  rw [← captured_of_sscanf h (.inl rfl) hs]
  rfl

theorem captured_of_send {o : Offer} (h : o.quoted = true) {keyword ds : List Directive} {ssl : Bool}
    (hkeyword : keyword = literal "DCC SEND " ∨ keyword = literal "DCC SSEND ") {call : DccCall}
    (hr : sendCall (keyword ++ .str libircBufferSize :: ds) ssl o.text = some call) :
    call.filename = some (capturedWord o.name) := by
  obtain ⟨f, ip, port, size, hs, rfl⟩ := sendCall_eq_some hr
  rw [← captured_of_sscanf h hkeyword hs]
  rfl

theorem captured_of_sendWithoutSize {o : Offer} (h : o.quoted = true) {call : DccCall}
    (hr : sendWithoutSizeCall o.text = some call) : call.filename = some (capturedWord o.name) := by
  obtain ⟨f, ip, port, hs, rfl⟩ := sendWithoutSizeCall_eq_some hr
  rw [← captured_of_sscanf h (.inl rfl) hs]
  rfl

theorem quoted_pattern {o : Offer} (h : o.quoted = true) {pattern : Bytes → Option DccCall}
    (hmem : pattern ∈ dccPatterns) (hsome : pattern o.text = some o.call) :
    pattern = sendCall quotedSendFormat false := by
  have hname : o.call.filename = some o.name := by
    unfold Announcement.call
    split <;> rfl
  simp only [dccPatterns, List.mem_cons, List.not_mem_nil, or_false] at hmem
  rcases hmem with rfl | rfl | rfl | rfl | rfl | rfl | rfl
  · exact absurd rfl (captured_ne o (captured_of_reverse h hsome))
  · exact absurd rfl (captured_ne o (captured_of_send h (.inl rfl) hsome))
  · rfl
  · exact absurd rfl (captured_ne o (captured_of_sendWithoutSize h hsome))
  · exact absurd rfl (captured_ne o (captured_of_send h (.inr rfl) hsome))
  · obtain ⟨size, token, hcall⟩ := acceptReverseCall_eq_some hsome
    simp [hcall, DccCall.filename] at hname
  · obtain ⟨port, size, hcall⟩ := acceptCall_eq_some hsome
    simp [hcall, DccCall.filename] at hname

theorem threeNumbers_eq_scan (s : Bytes) :
    threeNumbers s = decide ((scan (numbers [64, 16, 64]) s).length = 3) := by
  obtain ⟨ns, hscan, hlen⟩ := scan_numbers_all_num [64, 16, 64] s
  rw [hscan, List.length_map, hlen]
  rfl

theorem threeNumbers_behind_white {name : Bytes} (h : ∃ c ∈ name, isspace c = true) (ns : List ℕ) :
    threeNumbers (behindCaptured name ns) = threeNumbers (afterFirstWord name) := by
  obtain ⟨c, hc, hspace⟩ := h
  have hne : (name.dropWhile (fun c => !isspace c)).isEmpty = false := by
    cases hd : name.dropWhile (fun c => !isspace c) with
    | nil => simpa [hspace] using List.dropWhile_eq_nil_iff.mp hd c hc
    | cons _ _ => rfl
  have hbehind : behindCaptured name ns = afterFirstWord name ++ quote :: numbersText ns := by
    unfold behindCaptured afterFirstWord
    rw [List.dropWhile_append, hne]
    simp
  have hhalts : ∀ d ∈ numbers [64, 16, 64], d.haltsAt quote :=
    haltsAt_numbers (by decide) (by decide) (by decide) (by decide) _
  rw [threeNumbers_eq_scan, threeNumbers_eq_scan, hbehind, scan_append_stop _ hhalts]

theorem behindCaptured_of_solid {name : Bytes} (h : ¬ ∃ c ∈ name, isspace c = true) (ns : List ℕ) :
    behindCaptured name ns = numbersText ns := by
  have hall : ∀ c ∈ name ++ [quote], (!isspace c) = true := by
    intro c hc
    rcases List.mem_append.mp hc with hc | hc
    · simpa using fun hs => h ⟨c, hc, hs⟩
    · rw [List.mem_singleton.mp hc]
      decide
  simp [behindCaptured, List.dropWhile_eq_nil_iff.mpr hall]

theorem call_ne_unhandled (a : Announcement) : a.call ≠ .unhandled := by
  unfold Announcement.call
  split <;> simp

theorem quoted_send_reached (o : Offer) (h : o.quoted = true) {port : ℕ} (hk : o.kind = .send port)
    (hthree : threeNumbers (behindCaptured o.name o.numberFields) = false) :
    dccRequestCall true o.text = o.call := by
  have hscan := sscanf_quoted_send o h (by simp [hk])
  have hreverse : reverseSendCall o.text = none := by
    cases hr : reverseSendCall o.text with
    | none => rfl
    | some call =>
      obtain ⟨f, ip, size, token, hs, -⟩ := reverseSendCall_eq_some hr
      have hnumbers := threeNumbers_of_scan_reverse (List.cons.inj ((hscan _).symm.trans hs)).2
      exact absurd (hthree.symm.trans hnumbers) (by simp)
  have hsend : sendCall sendFormat false o.text = none := by
    cases hr : sendCall sendFormat false o.text with
    | none => rfl
    | some call =>
      obtain ⟨f, ip, p, size, hs, -⟩ := sendCall_eq_some hr
      have hnumbers := threeNumbers_of_scan_send (List.cons.inj ((hscan _).symm.trans hs)).2
      exact absurd (hthree.symm.trans hnumbers) (by simp)
  have hquoted : sendCall quotedSendFormat false o.text = some o.call := by
    have hrange := o.kind_inRange
    rw [hk] at hrange
    have hfield : o.fileField = quote :: (o.name ++ [quote]) := by simp [Announcement.fileField, h]
    have hlen := fileField_length o
    rw [hfield] at hlen
    simp only [List.length_cons, List.length_append, List.length_nil] at hlen
    have hquote : quote ∉ o.name := fun hq => o.name_clean quote hq (by decide)
    have hlen₁ : o.name.length ≤ libircBufferSize := by omega
    have hread := read_until (s := numbersText o.numberFields) o.name_ne hquote hlen₁
    have hbody : scan (.lit quote :: .until_ quote libircBufferSize :: .lit quote :: numbers [64, 16, 64])
        (quote :: (o.name ++ quote :: numbersText o.numberFields)) =
          [.text o.name, .num o.ip, .num port, .num o.size] := by
      have hnumbers : o.numberFields = [o.ip, port, o.size] := by
        simp [Announcement.numberFields, hk]
      have hlast := scan_send_numbers o.ip_lt hrange.2 o.size_lt
      rw [scan_lit, scan_cons _ hread, scan_lit, hnumbers, hlast]
      rfl
    have htext : o.text =
        bytes "DCC SEND " ++ (quote :: (o.name ++ quote :: numbersText o.numberFields)) := by
      simp [Announcement.text, Announcement.keyword, hk, hfield]
    unfold sendCall quotedSendFormat
    have hskip (ds : List Directive) (s : Bytes) :
        scan (.white :: ds) (quote :: s) = scan ds (quote :: s) :=
      scan_white_of_stops ds fun c hc => Option.some.inj hc ▸ (by decide : isspace quote = false)
    rw [sscanf_text, htext, scan_send_keyword, hskip, hbody]
    simp [Announcement.call, hk]
  simp [dccRequestCall, dccPatterns, hreverse, hsend, hquoted]

theorem quoted_decoded_iff (o : Offer) (h : o.quoted = true) :
    dccRequestCall true o.text = o.call ↔
      (∃ port, o.kind = .send port) ∧
        threeNumbers (behindCaptured o.name o.numberFields) = false := by
  constructor
  · intro hcall
    obtain ⟨pattern, hmem, hsome⟩ := exists_pattern_of_dccRequestCall hcall (call_ne_unhandled _)
    rw [quoted_pattern h hmem hsome] at hsome
    obtain ⟨f, ip, port, size, -, hdecoded⟩ := sendCall_eq_some hsome
    have hkind : ∃ port, o.kind = .send port := by
      unfold Announcement.call at hdecoded
      split at hdecoded
      · next port hk => exact ⟨port, hk⟩
      · simp at hdecoded
      · simp at hdecoded
    refine ⟨hkind, ?_⟩
    obtain ⟨port, hk⟩ := hkind
    have hscan := sscanf_quoted_send o h (by simp [hk])
    rw [Bool.eq_false_iff]
    intro hthree
    obtain ⟨ip', port', size', hnumbers⟩ := scan_send_of_threeNumbers hthree
    have hsend : sendCall sendFormat false o.text =
        some (.acceptDccSend (capturedWord o.name) ip' size' port' false) := by
      unfold sendCall sendFormat
      rw [hscan, hnumbers]
    have hfirst := dccRequestCall_of_send hsend
    cases hr : reverseSendCall o.text with
    | none =>
      rw [hr, hcall] at hfirst
      exact captured_ne o rfl hfirst.symm
    | some call =>
      rw [hr, hcall] at hfirst
      exact captured_ne o (captured_of_reverse h hr) hfirst.symm
  · rintro ⟨⟨port, hk⟩, hthree⟩
    exact quoted_send_reached o h hk hthree

/-- `libirc_dcc_request` of a permitted sender makes the call that an offer means exactly when
    the offer is decodable. -/
theorem offer_decoded_iff (o : Offer) :
    dccRequestCall true o.text = o.call ↔ o.Decodable := by
  unfold Announcement.Decodable
  cases h : o.quoted with
  | false => simp [unquoted_decoded o h]
  | true =>
    rw [quoted_decoded_iff o h]
    simp only [Bool.true_eq_false, false_or]
    by_cases hwhite : ∃ c ∈ o.name, isspace c = true
    · rw [threeNumbers_behind_white hwhite]
      simp [hwhite]
    · constructor
      · rintro ⟨⟨port, hk⟩, hthree⟩
        have hrange := o.kind_inRange
        rw [hk] at hrange
        have hnumbers : o.numberFields = [o.ip, port, o.size] := by
          simp [Announcement.numberFields, hk]
        rw [behindCaptured_of_solid hwhite, hnumbers, threeNumbers_of_scan_send
          (scan_send_numbers o.ip_lt hrange.2 o.size_lt)] at hthree
        exact absurd hthree (by simp)
      · rintro ⟨-, hw, -⟩
        exact absurd hw hwhite

def quotedReverseOffer : Offer where
  kind := .reverse 7
  quoted := true
  name := bytes "my file"
  ip := 16909060
  size := 1000
  name_ne := by decide
  name_clean := by decide +kernel
  unquoted_solid := by decide
  ip_lt := by decide
  size_lt := by decide
  kind_inRange := (by decide : 7 < 2 ^ 32)
  fits := by decide

/-- The name in quotes sends a reverse offer into the pattern of the plain one: port 0. -/
theorem quoted_reverse_offer_taken_for_send :
    dccRequestCall true quotedReverseOffer.text =
        .acceptDccSend (bytes "my file") 16909060 1000 0 false ∧
      dccRequestCall true quotedReverseOffer.text ≠ quotedReverseOffer.call := by
  decide +kernel

end Xdccget.DccOffers
