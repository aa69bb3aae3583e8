import Kconfig.Dump.Verbatim

/-!
# Pieces of the dump

The dump is markup, written piece by piece. A piece is a tag or a whole element, and each is one
write.
-/

namespace Kconfig.Dump

/-- A piece of the dump. -/
inductive Piece where
  | openSubmenu
  | closeSubmenu
  | openMenu (flags : MenuFlags)
  | closeMenu
  /-- The condition of a menu. -/
  | dep (e : Expr)
  | openSymbol (kind : SymbolKind) (flags : SymbolFlags) (id : SymbolId)
  | closeSymbol
  | name (s : String)
  | openProperty (kind : PropertyKind)
  | closeProperty
  | text (s : String)
  | value (context : String) (e : Expr)
  | visible (context : String) (e : Expr)
  /-- The start of the property of a choice whose members its menu lists. -/
  | members (list : List SymbolRef)

namespace Piece

/-- A piece as it is written. -/
def render (m : Model) : Piece → Run String
  | openSubmenu => return "<submenu>\n"
  | closeSubmenu => return "</submenu>\n"
  | openMenu flags => return "<menu flags=\"" ++ toString flags.bits.toNat ++ "\">\n"
  | closeMenu => return "</menu>\n"
  | dep e => do
    let e ← exprText m "menu dependency" e
    return "<dep>" ++ e ++ "</dep>"
  | openSymbol kind flags id =>
    return "<symbol type=\"" ++ kind.dumpName ++ "\" flags=\"" ++ toString flags.bits.toNat ++
      "\" id=\"" ++ toString id.position ++ "\">\n"
  | closeSymbol => return "</symbol>\n"
  | name s => return "<name>" ++ identifier "" s ++ "</name>\n"
  | openProperty kind => return "<property type=\"" ++ kind.dumpName ++ "\">"
  | closeProperty => return "</property>\n"
  | text s => return "<text><![CDATA[" ++ s ++ "]]></text>"
  | value context e => do
    let e ← exprText m context e
    return "<expr>" ++ e ++ "</expr>"
  | visible context e => do
    let e ← exprText m context e
    return "<visible><expr>" ++ e ++ "</expr></visible>"
  | members list => do
    let list ← tokensText m "" (chain list)
    return "<property type=\"choice\"><expr>" ++ list ++ "</expr>"

end Piece

end Kconfig.Dump
