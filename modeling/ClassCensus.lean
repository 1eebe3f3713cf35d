import ClassCensus.Text.Quoted
import ClassCensus.Decimal.Shortest
import ClassCensus.Text.Utf8
import ClassCensus.Text.Utf16
import ClassCensus.ClassFile.Pool
import ClassCensus.ClassFile.Instruction
import ClassCensus.ClassFile.Basic
import ClassCensus.TypeText.ClassName
import ClassCensus.Mention.Reference
import ClassCensus.Layout.XmlName
import ClassCensus.Layout.Character
import ClassCensus.Layout.Entity
import ClassCensus.Layout.Attribute
import ClassCensus.Layout.Event
import ClassCensus.Layout.Outline
import ClassCensus.Archive.CodePage
import ClassCensus.Archive.Checksum
import ClassCensus.Archive.Inflate
import ClassCensus.Archive.Reader
import ClassCensus.FileSystem.Tree
import ClassCensus.Survey.Report
import ClassCensus.Main
import ClassCensus.Proofs.ClassFile.BigEndian
import ClassCensus.Proofs.ClassFile.Spelling
import ClassCensus.Proofs.ClassFile.WrittenPool
import ClassCensus.Proofs.ClassFile.WrittenAnnotation
import ClassCensus.Proofs.ClassFile.Lookup
import ClassCensus.Proofs.ClassFile.WrittenAttribute
import ClassCensus.Proofs.ClassFile.WrittenClass
import ClassCensus.Proofs.ClassFile.SelfDelimiting
import ClassCensus.Proofs.Mention.Occurrence
import ClassCensus.Proofs.Mention.CaughtTypes
import ClassCensus.Proofs.Mention.Resolution
import ClassCensus.Proofs.Mention.Exactness
import ClassCensus.Proofs.Survey.Gathering
import ClassCensus.Proofs.FileSystem.Growth
import ClassCensus.Proofs.FileSystem.Resolution
import ClassCensus.Proofs.FileSystem.Operations
import ClassCensus.Proofs.FileSystem.Disk
import ClassCensus.Proofs.FileSystem.LastName
import ClassCensus.Proofs.Survey.Replacement
import ClassCensus.Proofs.TypeText.DescriptorGrammar
import ClassCensus.Proofs.TypeText.GenericTypeGrammar
import ClassCensus.Proofs.TypeText.SignatureGrammar
import ClassCensus.Proofs.Layout.OutlineStep
import ClassCensus.Proofs.Layout.DottedNames
import ClassCensus.Proofs.Mention.CanonicalNames
import ClassCensus.Proofs.Mention.OperandKinds
import ClassCensus.Proofs.Survey.ReportText
import ClassCensus.Proofs.Mention.Correspondence
import ClassCensus.Proofs.Mention.Renumbering
import ClassCensus.Proofs.Mention.Reachability
import ClassCensus.Proofs.Text.Utf8
import ClassCensus.Proofs.Layout.SpelledText
import ClassCensus.Proofs.Layout.NameProduction
import ClassCensus.Proofs.Layout.SpelledTag
import ClassCensus.Proofs.Layout.SpelledConstruct
import ClassCensus.Proofs.Layout.Scanning
import ClassCensus.Proofs.Layout.SpelledDocument
import ClassCensus.Proofs.Machine.Operation
import ClassCensus.Proofs.Machine.Following
import ClassCensus.Proofs.Machine.ImageReader
import ClassCensus.Proofs.Machine.Instruction
import ClassCensus.Proofs.Machine.Pool
import ClassCensus.Proofs.Machine.ClassImage
import ClassCensus.Proofs.Machine.TextReader
import ClassCensus.Proofs.Machine.TypeText
import ClassCensus.Proofs.Machine.References
import ClassCensus.Proofs.ClassFile.WrittenInstruction
import ClassCensus.Proofs.TypeText.ListedClasses
import ClassCensus.Proofs.TypeText.ClassSignature
import ClassCensus.Proofs.TypeText.PlainTypes
import ClassCensus.Proofs.ClassFile.FilledPool
import ClassCensus.Proofs.ClassFile.Settling
import ClassCensus.Proofs.ClassFile.AttributeTable
import ClassCensus.Proofs.ClassFile.InsertedAttribute
import ClassCensus.Proofs.ClassFile.ValueDepth
import ClassCensus.Proofs.ClassFile.TableDepth
import ClassCensus.Proofs.Mention.BoundedWalk
import ClassCensus.Proofs.Text.Utf16
import ClassCensus.Proofs.ClassFile.ModifiedUtf8
import ClassCensus.Proofs.Layout.BalancedEvents
import ClassCensus.Proofs.Layout.ConstructEnd
import ClassCensus.Proofs.Layout.Truncation
import ClassCensus.Proofs.Text.CodePointOrder
import ClassCensus.Proofs.MergedNames
import ClassCensus.Proofs.Layout.AcceptedLayout
import ClassCensus.Proofs.Layout.NamesInTags
import ClassCensus.Proofs.Layout.Pieces
import ClassCensus.Proofs.Layout.InsertedAside
import ClassCensus.Proofs.Archive.Opening
import ClassCensus.Proofs.Survey.ClassEntries
import ClassCensus.Proofs.Machine.FieldReading
import ClassCensus.Proofs.FileSystem.PathOrder
import ClassCensus.Proofs.FileSystem.PathBelow
import ClassCensus.Proofs.FileSystem.Below
import ClassCensus.Proofs.Survey.InputDiscovery
