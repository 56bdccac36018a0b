import GnomeVfs.AddressMatch
import GnomeVfs.ParseLsNames

/- The HTTP proxy that the configuration names, and the hosts that are reached without it. -/
namespace GnomeVfs.HttpProxy

open Address

/-- `strtoul (s, NULL, 10)`. -/
def strtoul (s : Bytes) : Nat :=
  match Ftp.scanInt s with
  | some (value, _) => if 2 ^ 64 ≤ value.natAbs then 2 ^ 64 - 1 else (value % 2 ^ 64).toNat
  | none => 0

/-- `strtol (s, &endptr, 10)`, and the text at `endptr`. -/
def strtolEnd (s : Bytes) : Int × Bytes :=
  match Ftp.scanInt s with
  | some (value, rest) => (ParseLs.clampLong value, rest)
  | none => (0, s)

def defaultHttpProxyPort : Nat := 8080

/-- The host and the port with the answer `TRUE`, or nothing where the host would be cut out in front of a null
pointer. The character behind the colon is not looked at: `'\0' != ++port_part` is about the
pointer, which for the same reason is not the one that the text begins with. -/
def hostPortFromString (httpProxy : Bytes) : Option (Bytes × Nat) :=
  (strchr httpProxy chrColon).map fun portPart => (strdupTo httpProxy portPart, strtoul portPart.tail % 2 ^ 32)

inductive ProxyAddrType where
  | ipv4
  | ipv6
  deriving DecidableEq

def zero6 : In6Addr := ⟨List.replicate 16 0, rfl⟩

def ones6 : In6Addr := ⟨List.replicate 16 0xff, rfl⟩

structure ProxyHostAddr where
  type : ProxyAddrType := .ipv4
  addr : InAddr := ⟨0⟩
  mask : InAddr := ⟨0⟩
  addr6 : In6Addr := zero6
  mask6 : In6Addr := zero6
  deriving DecidableEq

/-- `inet_pton` for the two families, which takes letters of either case. -/
structure InetPton where
  inet : Bytes → Option InAddr
  inet6 : Bytes → Option In6Addr
  caseless : ∀ s, inet (strdown s) = inet s
  caseless6 : ∀ s, inet6 (strdown s) = inet6 s

/-- What C leaves open in one call of `parse_ignore_host`: the value of `~0 << 32`, and what
the local `mask6` holds, which nothing is stored in. -/
structure Undefined where
  shift : UInt32
  mask6 : In6Addr

structure Globals where
  httpProxy : Option Bytes := none
  ignoreHosts : List Bytes := []
  ignoreAddrs : List ProxyHostAddr := []

def ipv6NetworkAddr (addr mask : In6Addr) : In6Addr :=
  ⟨List.zipWith (· &&& ·) addr.s6_addr mask.s6_addr, by simp [addr.length, mask.length]⟩

section Parse

variable (order : ByteOrder) (pton : InetPton)

/-- `htonl (~0 << width)`, where the width is in range. -/
def widthMask (undefined : Undefined) (width : Int) : InAddr :=
  ⟨order.htonl (if width = 32 then undefined.shift else 0xffffffff <<< UInt32.ofNat width.toNat)⟩

/-- The index of the last byte that is stored in `mask6`, which the loop over the full bytes ends at. -/
def lastIndex (width : Int) : Nat := (width.tdiv 8).toNat

/-- The bytes of `mask6`: a store behind them is lost. -/
def mask6Of (width : Int) : In6Addr :=
  ⟨((List.range 16).map fun i => if i < lastIndex width then 0xff else 0).set (lastIndex width)
    (UInt8.ofNat (0xff <<< (8 - width.tmod 8).toNat)), by simp⟩

/-- What `parse_ignore_host` makes of one entry, and the indexes that it stores at in an address or a mask. -/
structure Parsed where
  globals : Globals
  indexes : List Nat := []

def parseIgnoreHost (g : Globals) (undefined : Undefined) (input : Bytes) : Parsed :=
  let netmask := (strchr input chrSlash).map List.tail
  let hostname := match strchr input chrSlash with
    | some slash => strdupTo input slash
    | none => strdown input
  match pton.inet hostname with
  | some host =>
    match netmask with
    | some netmask =>
      let (value, endptr) := strtolEnd netmask
      let width := ParseLs.toInt value
      if endptr ≠ [] ∨ width < 0 ∨ 32 < width then ⟨g, []⟩
      else
        let mask := widthMask order undefined width
        ⟨{ g with ignoreAddrs := g.ignoreAddrs ++ [{ type := .ipv4, addr := ⟨host.s_addr &&& mask.s_addr⟩, mask }] }, []⟩
    | none =>
      ⟨{ g with ignoreAddrs := g.ignoreAddrs ++ [{ type := .ipv4, addr := host, mask := ⟨0xffffffff⟩ }] }, []⟩
  | none =>
    match pton.inet6 hostname with
    | some host6 =>
      match netmask with
      | some netmask =>
        let (value, endptr) := strtolEnd netmask
        let width := ParseLs.toInt value
        let indexes := List.range 16 ++ List.range (lastIndex width) ++ [lastIndex width]
        if endptr ≠ [] ∨ width < 0 ∨ 128 < width then ⟨g, indexes⟩
        else
          ⟨{ g with ignoreAddrs := g.ignoreAddrs ++
              [{ type := .ipv6, addr6 := ipv6NetworkAddr host6 undefined.mask6, mask6 := mask6Of width }] }, indexes⟩
      | none =>
        ⟨{ g with ignoreAddrs := g.ignoreAddrs ++
            [{ type := .ipv6, addr6 := host6, mask6 := ones6 }] }, List.range 16⟩
    | none => ⟨{ g with ignoreHosts := g.ignoreHosts ++ [hostname] }, []⟩

/-- An entry of the list covers a host that is an IPv6 address. -/
def ignores6 (in6 : In6Addr) (addr : ProxyHostAddr) : Bool :=
  let net6 := ipv6NetworkAddr in6 addr.mask6
  if addr.type = .ipv6 ∧ net6 = addr.addr6 then true
  else addr.type = .ipv4 && isV4Mapped net6 && v4Numeric net6 &&& addr.mask.s_addr != addr.addr.s_addr

/-- An entry of the list covers a host by name. -/
def ignoresName (hn entry : Bytes) : Bool :=
  if byteAt entry 0 = 42 then entry.tail.isSuffixOf hn else hn = entry

/-- `proxy_should_for_hostname`, where IPv6 is available. The indexes that it reads at are 0 to 15. -/
def proxyShouldForHostname (g : Globals) (hostname : Bytes) : Bool :=
  match pton.inet hostname with
  | some host => !g.ignoreAddrs.any fun addr => addr.type = .ipv4 && host.s_addr &&& addr.mask.s_addr == addr.addr.s_addr
  | none =>
    match pton.inet6 hostname with
    | some in6 => !g.ignoreAddrs.any (ignores6 in6)
    | none => !g.ignoreHosts.any (ignoresName (strdown hostname))

/-- What is configured. -/
structure Config where
  useProxy : Bool
  host : Option Bytes
  port : Int
  ignoreHosts : List (Undefined × Bytes)

/-- `"%s:%u"`, with the default where the port is none. -/
def proxyText (host : Bytes) (port : Int) : Bytes :=
  host ++ chrColon :: decimal (if port ≠ 0 ∧ (port % 2 ^ 32).toNat ≤ 0xffff then (port % 2 ^ 32).toNat
    else defaultHttpProxyPort)

/-- The list, entry by entry. -/
def parseIgnoreHosts (g : Globals) : List (Undefined × Bytes) → Parsed
  | [] => ⟨g, []⟩
  | (undefined, input) :: rest =>
    let first := parseIgnoreHost order pton g undefined input
    let later := parseIgnoreHosts first.globals rest
    ⟨later.globals, first.indexes ++ later.indexes⟩

def constructGlHttpProxy (config : Config) : Parsed :=
  if config.useProxy then
    let httpProxy := match config.host with
      | some host => if host = [] then none else some (proxyText host config.port)
      | none => none
    parseIgnoreHosts order pton { httpProxy } config.ignoreHosts
  else ⟨{}, []⟩

end Parse

section Address

theorem hostPortFromString_colon {front : Bytes} (clear : chrColon ∉ front) (back : Bytes) :
    hostPortFromString (front ++ chrColon :: back) = some (front, strtoul back % 2 ^ 32) := by
  have found : strchr (front ++ chrColon :: back) chrColon = some (chrColon :: back) := by
    have miss : ∀ c ∈ front, (c == chrColon) = false := by
      intro c member
      rw [beq_eq_false_iff_ne]
      rintro rfl
      exact clear member
    rw [strchr, scanTo_append_of_clear _ miss]
    exact scanTo_cons_of_pos _ (beq_self_eq_true chrColon) back
  rw [hostPortFromString, found, Option.map_some, strdupTo_append, List.tail_cons]

theorem strtoul_decimal {n : Nat} (small : n < 2 ^ 64) : strtoul (decimal n) = n := by
  have value := ParseLs.scanInt_digits (decimal_ne_nil n) (decimal_isDigit n)
  rw [decimalValue_decimal] at value
  simp only [strtoul, value]
  rw [if_neg (by omega)]
  omega

theorem proxyText_port (host : Bytes) {port : Nat} (positive : 0 < port) (small : port ≤ 65535) :
    proxyText host port = host ++ chrColon :: decimal port := by
  have same : ((port : Int) % 2 ^ 32).toNat = port := by omega
  rw [proxyText, same, if_pos ⟨by omega, small⟩]

theorem hostPort_proxyText {host : Bytes} {port : Nat} (positive : 0 < port) (small : port ≤ 65535) :
    hostPortFromString (proxyText host port) = some (host, port) ↔ chrColon ∉ host := by
  rw [proxyText_port host positive small]
  constructor
  · intro whole member
    obtain ⟨front, back, rfl, clear⟩ := List.eq_append_cons_of_mem member
    rw [List.append_assoc, List.cons_append, hostPortFromString_colon clear, Option.some.injEq, Prod.mk.injEq] at whole
    have lengths := congrArg List.length whole.1
    rw [List.length_append, List.length_cons] at lengths
    omega
  · intro clear
    rw [hostPortFromString_colon clear, strtoul_decimal (by omega), Nat.mod_eq_of_lt (by omega)]

variable (order : ByteOrder) (pton : InetPton)

theorem parseIgnoreHost_httpProxy (g : Globals) (undefined : Undefined) (input : Bytes) :
    (parseIgnoreHost order pton g undefined input).globals.httpProxy = g.httpProxy := by
  simp only [parseIgnoreHost]
  repeat' split
  all_goals rfl

theorem parseIgnoreHosts_httpProxy (g : Globals) (entries : List (Undefined × Bytes)) :
    (parseIgnoreHosts order pton g entries).globals.httpProxy = g.httpProxy := by
  induction entries generalizing g with
  | nil => rfl
  | cons entry rest ih =>
    simp only [parseIgnoreHosts]
    rw [ih, parseIgnoreHost_httpProxy]

theorem constructGlHttpProxy_text {host : Bytes} (some_host : host ≠ []) (port : Int)
    (ignore : List (Undefined × Bytes)) :
    (constructGlHttpProxy order pton ⟨true, some host, port, ignore⟩).globals.httpProxy = some (proxyText host port) := by
  simp only [constructGlHttpProxy, if_true, parseIgnoreHosts_httpProxy]
  exact if_neg some_host

/-- A configured proxy is read back where its host has no colon. -/
theorem proxy_address_round_trip {host : Bytes} {port : Nat} (some_host : host ≠ []) (positive : 0 < port)
    (small : port ≤ 65535) (ignore : List (Undefined × Bytes)) :
    (constructGlHttpProxy order pton ⟨true, some host, port, ignore⟩).globals.httpProxy.bind hostPortFromString =
      some (host, port) ↔ chrColon ∉ host := by
  rw [constructGlHttpProxy_text order pton some_host, Option.bind_some, hostPort_proxyText positive small]

/-- No address at all. -/
def namesOnly : InetPton := ⟨fun _ => none, fun _ => none, fun _ => rfl, fun _ => rfl⟩

theorem proxy_address_round_trip_named :
    (constructGlHttpProxy .little namesOnly ⟨true, some (ascii "proxy"), (3128 : Nat), []⟩).globals.httpProxy.bind
      hostPortFromString = some (ascii "proxy", 3128) :=
  (proxy_address_round_trip .little namesOnly (by decide) (by decide) (by decide) []).mpr (by decide)

/-- The colons of an IPv6 address are taken for the one in front of the port. -/
theorem ipv6_proxy_is_cut :
    ¬ ∀ (order : ByteOrder) (pton : InetPton) (host : Bytes) (port : Nat), host ≠ [] → 0 < port → port ≤ 65535 →
      (constructGlHttpProxy order pton ⟨true, some host, port, []⟩).globals.httpProxy.bind hostPortFromString =
        some (host, port) := by
  intro claimed
  have whole := claimed .little namesOnly (ascii "::1") 8080 (by decide) (by decide) (by decide)
  rw [constructGlHttpProxy_text .little namesOnly (by decide), Option.bind_some,
    hostPort_proxyText (by decide) (by decide)] at whole
  exact whole (by decide)

end Address

end GnomeVfs.HttpProxy
