import ResourceLang.Command.Run
import ResourceLang.Diagnostic
import ResourceLang.HexDump
import ResourceLang.Listing
import ResourceLang.Main
import ResourceLang.Resource.Declared
import ResourceLang.Resource.Store
import ResourceLang.Token.Lexer
import ResourceLang.Token.Reader
import ResourceLang.Proofs.SlotImage
import ResourceLang.Proofs.TemplateRoundTrip
import ResourceLang.Proofs.Reimport
import ResourceLang.Proofs.LexemeGrammar
import ResourceLang.Proofs.CutSoundness
import ResourceLang.Proofs.SpelledLexemes
import ResourceLang.Proofs.SpacedTokens
import ResourceLang.Proofs.SourceCover
import ResourceLang.Proofs.CutLocality
import ResourceLang.Proofs.PlaceShift
import ResourceLang.Proofs.JoinedLines
import ResourceLang.Proofs.RepeatedCalls
import ResourceLang.Proofs.TruncatedBytes
import ResourceLang.Proofs.TypedSlots
import ResourceLang.Proofs.StoppedReading
import ResourceLang.Proofs.ScannerPath
import ResourceLang.Proofs.BytePlaces
import ResourceLang.Proofs.ExpressionGrammar
import ResourceLang.Proofs.ExpressionNesting
import ResourceLang.Proofs.ShortenedCut
import ResourceLang.Proofs.FirstOffence
import ResourceLang.Proofs.StoreRuns
import ResourceLang.Proofs.SourceIds
import ResourceLang.Proofs.DeclarationRuns
import ResourceLang.Proofs.NumericTokens
import ResourceLang.Proofs.IntegerSlots
import ResourceLang.Proofs.FieldWrites
import ResourceLang.Proofs.FieldSlots
import ResourceLang.Proofs.DottedNumbers
import ResourceLang.Proofs.SeparateFiles
import ResourceLang.Proofs.FilledDefaults
import ResourceLang.Proofs.WriteRuns
import ResourceLang.Proofs.DefaultsAfterWrites
import ResourceLang.Proofs.DefaultsByField
import ResourceLang.Proofs.FirstFaultySlot
import ResourceLang.Proofs.ReorderedWrites
import ResourceLang.Proofs.FixedSizes
import ResourceLang.Proofs.ReaderRuns
import ResourceLang.Proofs.PrefixedIds
import ResourceLang.Proofs.PairedDigits
import ResourceLang.Proofs.ErrorPlaces
import ResourceLang.Proofs.TokenEnds
import ResourceLang.Proofs.RefusedNumbers
import ResourceLang.Proofs.PrintedDigits
import ResourceLang.Proofs.ListedValues
import ResourceLang.Proofs.ReturnedLines
import ResourceLang.Proofs.DumpedRows
import ResourceLang.Proofs.ByteScanner
import ResourceLang.Proofs.ByteReading
import ResourceLang.Proofs.ByteRules
import ResourceLang.Proofs.WholeCharacters
